import Qiftop.Tui.GroupDetail

/-!
# Tui — the cursor and the window

The end of `TuiApp::buildFrame` and `TuiApp::moveCursor`: where the cursor is and which rows a screen of
`body` lines shows.  Positions are what earlier frames and keys left, so nothing is known about them.

* `moveCursor_range`: a move ends on a row of the last frame.
* `moveCursor_eq`: where every row can be landed on, it is a step of `delta` rows, as far as there are any.
* `place_inView`: `buildFrame` puts the cursor on a row and that row in the window.
* `formatRows_getElem?`: only the window's rows have cells, and they have the ones all rows would have.
-/

namespace Qiftop.Tui
open Qt

/-- `std::clamp`. -/
def clamp (x lo hi : Int) : Int := if x < lo then lo else if hi < x then hi else x

theorem clamp_eq {x lo hi : Int} (h : lo ≤ hi) : clamp x lo hi = max lo (min x hi) := by
  unfold clamp
  split
  · omega
  · split <;> omega

theorem clamp_range {x lo hi : Int} (h : lo ≤ hi) : lo ≤ clamp x lo hi ∧ clamp x lo hi ≤ hi := by
  rw [clamp_eq h]
  omega

/-- From `p` on in the direction of `step`, past the rows that cannot be landed on. -/
def skipRows (refs : List RowRef) (step : Int) : ℕ → Int → Int
  | 0, p => p
  | fuel + 1, p =>
      match atCursor p refs with
      | some ref => if ref.selectable then p else skipRows refs step fuel (p + step)
      | none => p

/-! ### Moving -/

/-- Up to `remaining` rows further, landing only where one can. -/
def advance (refs : List RowRef) (step : Int) : ℕ → Int → Int
  | 0, pos => pos
  | remaining + 1, pos =>
      let next := skipRows refs step refs.length (pos + step)
      if next < 0 ∨ next ≥ refs.length then pos else advance refs step remaining next

/-- From a row that cannot be landed on to the nearest that can, in the direction of `step` first. -/
def land (refs : List RowRef) (step pos : Int) : Int :=
  match atCursor pos refs with
  | some ref =>
      if ref.selectable then pos
      else
        let p := skipRows refs step refs.length pos
        let p := if p < 0 ∨ p ≥ refs.length then skipRows refs (-step) refs.length pos else p
        if 0 ≤ p ∧ p < refs.length then p else pos
  | none => pos

/-- The cursor after `moveCursor`. -/
def moveCursor (refs : List RowRef) (cursor delta : Int) : Int :=
  let total : Int := refs.length
  if total ≤ 0 then 0
  else
    let step := if delta ≥ 0 then 1 else -1
    land refs step (advance refs step delta.natAbs (clamp cursor 0 (total - 1)))

section Move
variable {refs : List RowRef} {step pos : Int}

theorem advance_range (remaining : ℕ) (hpos : 0 ≤ pos ∧ pos < refs.length) :
    0 ≤ advance refs step remaining pos ∧ advance refs step remaining pos < refs.length := by
  induction remaining generalizing pos with
  | zero => exact hpos
  | succ remaining ih =>
      rw [advance]
      split
      · exact hpos
      · exact ih (by omega)

theorem land_range (hpos : 0 ≤ pos ∧ pos < refs.length) :
    0 ≤ land refs step pos ∧ land refs step pos < refs.length := by
  unfold land
  split
  · split
    · exact hpos
    · dsimp only
      split <;> split <;> assumption
  · exact hpos

/-- **A move ends on a row** of the frame it refers to. -/
theorem moveCursor_range (hne : refs ≠ []) (cursor delta : Int) :
    0 ≤ moveCursor refs cursor delta ∧ moveCursor refs cursor delta < refs.length := by
  have hpos := List.length_pos_iff.mpr hne
  have hlast : (0 : Int) ≤ refs.length - 1 := by omega
  have hclamp := clamp_range (x := cursor) hlast
  rw [moveCursor]
  dsimp only
  rw [if_neg (by omega)]
  exact land_range (advance_range _ (by omega))

/-- Every row can be landed on. -/
def Landable (refs : List RowRef) : Prop := ∀ ref ∈ refs, ref.selectable = true

theorem Landable.atCursor (h : Landable refs) {ref : RowRef} (href : atCursor pos refs = some ref) :
    ref.selectable = true := by
  unfold Tui.atCursor at href
  split at href
  · cases href
  · exact h ref (List.mem_of_getElem? href)

theorem Landable.skipRows (h : Landable refs) (fuel : ℕ) (p : Int) : skipRows refs step fuel p = p := by
  cases fuel with
  | zero => rfl
  | succ fuel =>
      rw [Tui.skipRows]
      split
      · next href => rw [if_pos (h.atCursor href)]
      · rfl

theorem Landable.land (h : Landable refs) : land refs step pos = pos := by
  rw [Tui.land]
  split
  · next href => rw [if_pos (h.atCursor href)]
  · rfl

theorem Landable.advance (h : Landable refs) (hstep : step = 1 ∨ step = -1) (remaining : ℕ)
    (hpos : 0 ≤ pos ∧ pos < refs.length) :
    advance refs step remaining pos = clamp (pos + step * remaining) 0 (refs.length - 1) := by
  rw [clamp_eq (by omega)]
  induction remaining generalizing pos with
  | zero =>
      rw [Tui.advance]
      omega
  | succ remaining ih =>
      rw [Tui.advance, h.skipRows]
      rcases hstep with rfl | rfl
      · split
        · omega
        · rw [ih (by omega)]
          omega
      · split
        · omega
        · rw [ih (by omega)]
          omega

/-- **A move** over rows that can all be landed on. -/
theorem moveCursor_eq (h : Landable refs) (hne : refs ≠ []) (cursor delta : Int) :
    moveCursor refs cursor delta =
      clamp (clamp cursor 0 (refs.length - 1) + delta) 0 (refs.length - 1) := by
  have hpos := List.length_pos_iff.mpr hne
  have hlast : (0 : Int) ≤ refs.length - 1 := by omega
  have hclamp := clamp_range (x := cursor) hlast
  rw [moveCursor]
  dsimp only
  rw [if_neg (by omega), h.land]
  by_cases hdelta : delta ≥ 0
  · rw [if_pos hdelta, h.advance (.inl rfl) _ (by omega), one_mul, Int.natAbs_of_nonneg hdelta]
  · have habs : (-1 : Int) * delta.natAbs = delta := by omega
    rw [if_neg hdelta, h.advance (.inr rfl) _ (by omega), habs]

end Move

/-! ### Where a frame puts the cursor and the window -/

structure Position where
  cursor : Int := 0
  scroll : Int := 0
  deriving DecidableEq, Repr

/-- The cursor goes to the header of the group that was folded, if it is shown. -/
def snapToTarget (refs : List RowRef) (target : Option QString) (cursor : Int) : Int :=
  match target with
  | none => cursor
  | some group =>
      match refs.findIdx? fun ref => ref.header && ref.groupKey == group with
      | some i => i
      | none => cursor

/-- The cursor goes off a row that cannot be landed on: down, or else up. -/
def snapCursor (refs : List RowRef) (total cursor : Int) : Int :=
  match atCursor cursor refs with
  | some ref =>
      if ref.selectable then cursor
      else
        let dn := skipRows (refs.take total.toNat) 1 refs.length cursor
        let up := skipRows refs (-1) refs.length cursor
        if dn < total ∧ dn < refs.length then dn else if 0 ≤ up then up else cursor
  | none => cursor

/-- The scroll that keeps the cursor in the window, and off the last line when more rows are below. -/
def followScroll (cursor scroll total body : Int) : Int :=
  if body > 0 then
    let scroll :=
      if cursor < scroll then cursor
      else if cursor ≥ scroll + body then cursor - body + 1
      else scroll
    let scroll := clamp scroll 0 (max 0 (total - body))
    if body > 1 ∧ scroll + body < total ∧ cursor ≥ scroll + body - 1 then
      clamp (cursor - body + 2) 0 (max 0 (total - body))
    else scroll
  else scroll

/-- Cursor and scroll of a frame of `total` rows. -/
def place (refs : List RowRef) (total body : Int) (target : Option QString) (pos : Position) : Position :=
  let cursor := snapToTarget refs target pos.cursor
  if total ≤ 0 then ⟨0, 0⟩
  else
    let cursor := snapCursor refs total (clamp cursor 0 (total - 1))
    ⟨cursor, followScroll cursor pos.scroll total body⟩

/-- Skipping goes some steps on. -/
theorem skipRows_steps (refs : List RowRef) (step : Int) (fuel : ℕ) (p : Int) :
    ∃ k : ℕ, skipRows refs step fuel p = p + k * step := by
  induction fuel generalizing p with
  | zero => exact ⟨0, by simp [skipRows]⟩
  | succ fuel ih =>
      rw [skipRows]
      split
      · split
        · exact ⟨0, by simp⟩
        · obtain ⟨k, hk⟩ := ih (p + step)
          refine ⟨k + 1, ?_⟩
          rw [hk, Nat.cast_succ, add_mul, one_mul]
          omega
      · exact ⟨0, by simp⟩

theorem snapCursor_range (refs : List RowRef) {total cursor : Int} (h : 0 ≤ cursor ∧ cursor < total) :
    0 ≤ snapCursor refs total cursor ∧ snapCursor refs total cursor < total := by
  obtain ⟨i, hdn⟩ := skipRows_steps (refs.take total.toNat) 1 refs.length cursor
  obtain ⟨j, hup⟩ := skipRows_steps refs (-1) refs.length cursor
  unfold snapCursor
  split
  · split
    · exact h
    · dsimp only
      split <;> [skip; split] <;> omega
  · exact h

/-- The cursor is on a row and in the window, and the window is as far down as rows go at most.  When
more rows are below, the last line of the screen says so; the cursor is not there. -/
structure InView (total body : Int) (pos : Position) : Prop where
  cursor_nonneg : 0 ≤ pos.cursor
  cursor_lt : pos.cursor < total
  scroll_le_cursor : pos.scroll ≤ pos.cursor
  cursor_lt_end : pos.cursor < pos.scroll + body
  scroll_nonneg : 0 ≤ pos.scroll
  scroll_le : pos.scroll ≤ max 0 (total - body)
  off_last_line : 1 < body → pos.scroll + body < total → pos.cursor < pos.scroll + body - 1

theorem followScroll_inView {cursor total body : Int} (hcursor : 0 ≤ cursor ∧ cursor < total)
    (hbody : 0 < body) (scroll : Int) :
    InView total body ⟨cursor, followScroll cursor scroll total body⟩ := by
  have hmax : 0 ≤ max 0 (total - body) := le_max_left _ _
  -- the first step brings the cursor into the window, wherever the window is
  obtain ⟨s, hs, habove, hbelow⟩ : ∃ s, (if cursor < scroll then cursor
      else if cursor ≥ scroll + body then cursor - body + 1 else scroll) = s ∧
      s ≤ cursor ∧ cursor < s + body := by
    refine ⟨_, rfl, ?_⟩
    split
    · omega
    · split <;> omega
  rw [followScroll, if_pos hbody, hs]
  dsimp only
  rw [clamp_eq hmax, clamp_eq hmax]
  split
  · constructor <;> dsimp only <;> omega
  · constructor <;> dsimp only <;> omega

/-- **The cursor is in view**, whatever the positions were before. -/
theorem place_inView (refs : List RowRef) {total body : Int} (htotal : 0 < total) (hbody : 0 < body)
    (target : Option QString) (pos : Position) : InView total body (place refs total body target pos) := by
  have hlast : 0 ≤ total - 1 := by omega
  have hclamp := clamp_range (x := snapToTarget refs target pos.cursor) hlast
  rw [place]
  dsimp only
  rw [if_neg (by omega)]
  exact followScroll_inView (snapCursor_range refs (by omega)) hbody pos.scroll

example : place [] 5 2 none ⟨9, 8⟩ = ⟨4, 3⟩ := by decide

/-! ### The cells of the window -/

/-- The first row that is formatted.  Without a screen, all are. -/
def fmtBegin (body scroll : Int) : Int := if body > 0 then max 0 scroll else 0

/-- The row behind the last that is formatted. -/
def fmtEnd (total body scroll : Int) : Int := if body > 0 then min total (scroll + body) else total

/-- One list of cells for each planned row, empty outside the window. -/
def formatRows {P : Type} (cells : P → List QString) (plan : List P) (body scroll : Int) :
    List (List QString) :=
  plan.mapIdx fun i p =>
    if (i : Int) < fmtBegin body scroll ∨ i ≥ fmtEnd plan.length body scroll then [] else cells p

section Format
variable {P : Type} (cells : P → List QString) (plan : List P)

@[simp] theorem length_formatRows (body scroll : Int) :
    (formatRows cells plan body scroll).length = plan.length := List.length_mapIdx

/-- **The rows of the window** have the cells that formatting all rows gives. -/
theorem formatRows_getElem? {body scroll : Int} {i : ℕ} (hscroll : scroll ≤ i) (hend : i < scroll + body) :
    (formatRows cells plan body scroll)[i]? = (plan.map cells)[i]? := by
  have hbody : body > 0 := by omega
  rw [formatRows, List.getElem?_mapIdx, List.getElem?_map]
  by_cases hi : i < plan.length
  · rw [List.getElem?_eq_getElem hi, Option.map_some, Option.map_some, fmtBegin, fmtEnd, if_pos hbody,
      if_pos hbody, if_neg (by omega)]
  · rw [List.getElem?_eq_none (by omega)]
    rfl

end Format

end Qiftop.Tui
