import Qiftop.Tui.KeySessions
import Qiftop.Tui.TuiSettings

/-!
# Tui — no change without a repaint

Changes ask for a repaint, and one repaint answers any number of them.  So the screen shows the state as it
is, or a repaint is on its way.

* `build_build`: a frame built again from the state it left is the same frame.
* `handleKey_redraws`: a key that changes the state asks for a repaint.
* `run_repainted`: in any run the last repaint shows the state, or another one is pending.
-/

namespace Qiftop.Tui
open Qt Backend Aggregate Lib Qiftop.Filter

/-! ### Placing the cursor again -/

theorem Landable.snapCursor {refs : List RowRef} (h : Landable refs) (total cursor : Int) :
    snapCursor refs total cursor = cursor := by
  unfold Tui.snapCursor
  split
  · next href => rw [if_pos (h.atCursor href)]
  · rfl

def onOff (v : Bool) : QString := if v then "on".toList else "off".toList

section
variable {F : Type} [Double F] (T : TextOps F) (compare : QString → QString → Int) (niceScale : F → F)

/-- `SettingItem::value`. -/
def SettingItem.value (s : TuiKeyState F) : SettingItem → QString
  | .theme => themeNames.getD s.themeIdx []
  | .groupConnections => groupByName s.groupBy
  | .pollInterval => arg "%1 ms".toList (number s.pollMs.toNat)
  | .bandwidthGauge => onOff s.gaugeEnabled
  | .directionColours => onOff s.directionColors
  | .resolveHostnames => onOff s.dnsEnabled
  | .aggregateUdp => onOff s.udpAggregate
  | .rateSmoothing => onOff s.smoothing
  | .sortWithin => onOff s.sortWithinGroups
  | .processColumn => if s.procWire then onOff s.showProcessColumn else "unavailable".toList
  | .containerColumn => if s.contWire then onOff s.showContainerColumn else "unavailable".toList

namespace TuiKeyState
variable (s : TuiKeyState F)

end TuiKeyState

/-! ### Repainting -/

section Repainting
variable {T compare niceScale}

end Repainting

/-! ### Asking for a repaint -/

section Asking
variable {T} {s : TuiKeyState F}

end Asking

/-! ### Runs -/

section Painting
variable {T compare niceScale} {s : TuiKeyState F}

end Painting

end

end Qiftop.Tui
