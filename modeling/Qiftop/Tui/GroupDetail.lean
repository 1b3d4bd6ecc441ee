import Qiftop.Qt.Binary64
import Qiftop.Tui.Grouping

/-!
# Tui — the group window

`openGroupDetail` and the detail overlay of `buildModal` of `tui/TuiApp.cpp`.  The window of a group adds
up the rows of the group's key itself, again in each frame.  It reads all rows, whether they pass the
filter or not, and takes an empty key to mean that no group is inspected.

* `figures_groups`: a header shows the figures of its members.
* `figures_buildModal`: the window shows those of all rows of the key.
* `totals_perm`, `rates_eq`: the order of the rows does not matter to the flows and the bytes; to the
  rates, which are doubles, it may.
* `group_window_agrees_iff`: the two agree exactly for the groups with a key all rows of which pass the
  filter and whose rates add up alike in the two orders.
-/

namespace Qiftop.Tui
open Qt Backend Aggregate Lib Qiftop.Filter

structure ProcessDetails where
  pid : Int32 := 0
  uid : UInt32 := 0
  comm : QString := []
  exe : QString := []
  cmdline : QString := []
  cwd : QString := []
  startTimeJiffies : UInt64 := 0
  deriving DecidableEq, Repr

/-- What both a header and a group window show of a group. -/
structure Figures (F : Type) where
  flows : ℕ
  rxRate : F
  txRate : F
  rxBytes : UInt64
  txBytes : UInt64
  deriving DecidableEq, Repr

/-- What the detail overlay shows.  `I` is a row of the Interfaces view. -/
inductive Modal (F I : Type) where
  | group (mode : GroupBy) (rep : Connection) (figures : Figures F) (pd : Option ProcessDetails)
  | groupGone
  | interface (row : I)
  | connection (row : Row F) (pd : Option ProcessDetails)
  | gone

/-- The figures of a group window. -/
def Modal.figures {F I : Type} : Modal F I → Option (Figures F)
  | .group _ _ figures _ => some figures
  | _ => none

section
variable {F : Type} [Double F]

def Figures.zero : Figures F := ⟨0, Double.ofInt 0, Double.ofInt 0, 0, 0⟩

def Figures.add (f : Figures F) (r : Row F) : Figures F where
  flows := f.flows + 1
  rxRate := Double.add f.rxRate r.rxRate
  txRate := Double.add f.txRate r.txRate
  rxBytes := f.rxBytes + r.current.rxBytes
  txBytes := f.txBytes + r.current.txBytes

/-- The figures of some rows, added up in their order. -/
def figuresOf (rows : List (Row F)) : Figures F := rows.foldl Figures.add .zero

/-- The figures of a header. -/
def Group.figures {n : ℕ} (g : Group n F) : Figures F :=
  ⟨g.members.length, g.summary.rxRate, g.summary.txRate, g.summary.rxBytes, g.summary.txBytes⟩

/-! ### The window -/

/-- The row under the cursor. -/
def atCursor {α : Type} (cursor : Int) (rows : List α) : Option α :=
  if cursor < 0 then none else rows[cursor.toNat]?

/-- Enter on a header.  The detail key of an earlier inspection stays. -/
def openGroupDetail (app : TuiApp F) (rowRefs : List RowRef) : TuiApp F :=
  if app.view ≠ .Connections ∨ app.groupBy = .None then app
  else
    match atCursor app.connCursor rowRefs with
    | none => app
    | some ref =>
        if !ref.header then app
        else { app with
          detailGroupKey := ref.groupKey
          detailGroupBy := app.groupBy
          detailView := .Connections
          overlay := .Detail }

/-- What the window's loop has found. -/
structure GroupScan (F : Type) where
  figures : Figures F
  rep : Connection := {}
  found : Bool := false

def GroupScan.step (mode : GroupBy) (key : QString) (s : GroupScan F) (r : Row F) : GroupScan F :=
  if groupKeyFor mode r.current ≠ key then s
  else ⟨s.figures.add r, if s.found then s.rep else r.current, true⟩

variable {I : Type} (interfaceKey : I → QString) (procDetails : Hash Int32 ProcessDetails)

/-- The details of a connection's process, as far as they have arrived. -/
def detailsOf (c : Connection) : Option ProcessDetails :=
  if c.process.valid then procDetails.lookup c.process.pid else none

/-- The detail overlay.  Nothing, while another overlay or none is open. -/
def buildModal (app : TuiApp F) (ifaceRows : List I) (connRows : List (Row F)) :
    Option (Modal F I) :=
  if app.overlay ≠ .Detail then none
  else if !app.detailGroupKey.isEmpty then
    let s := connRows.foldl (GroupScan.step app.detailGroupBy app.detailGroupKey) ⟨.zero, {}, false⟩
    if s.found then
      let pd := if app.detailGroupBy = .Process then detailsOf procDetails s.rep else none
      some (.group app.detailGroupBy s.rep s.figures pd)
    else some .groupGone
  else if app.detailView = .Interfaces then
    match ifaceRows.find? fun r => interfaceKey r = app.detailKey with
    | some r => some (.interface r)
    | none => some .gone
  else
    match connRows.find? fun r => r.current.key = app.detailKey with
    | some r => some (.connection r (detailsOf procDetails r.current))
    | none => some .gone

/-! ### Adding up -/

/-- The flows and the bytes. -/
def Figures.totals (f : Figures F) : ℕ × UInt64 × UInt64 := (f.flows, f.rxBytes, f.txBytes)

/-- Both rates. -/
def Figures.rates (f : Figures F) : F × F := (f.rxRate, f.txRate)

/-- The rates of some rows, added up in their order. -/
def ratesOf (rows : List (Row F)) : F × F :=
  rows.foldl (fun s r => (Double.add s.1 r.rxRate, Double.add s.2 r.txRate))
    (Double.ofInt 0, Double.ofInt 0)

theorem totals_foldl (rows : List (Row F)) (f : Figures F) :
    (rows.foldl Figures.add f).totals = (f.flows + rows.length,
      f.rxBytes + (rows.map (·.current.rxBytes)).sum,
      f.txBytes + (rows.map (·.current.txBytes)).sum) := by
  induction rows generalizing f with
  | nil => simp [Figures.totals]
  | cons r rows ih =>
      rw [List.foldl_cons, ih]
      simp only [Figures.add, List.length_cons, List.map_cons, List.sum_cons, add_assoc,
        Nat.add_comm 1]

theorem totals_figuresOf (rows : List (Row F)) : (figuresOf rows).totals =
    (rows.length, (rows.map (·.current.rxBytes)).sum, (rows.map (·.current.txBytes)).sum) := by
  rw [figuresOf, totals_foldl]
  simp [Figures.zero]

/-- The order of the rows does not matter to the flows and the bytes. -/
theorem totals_perm {rows rows' : List (Row F)} (h : rows.Perm rows') :
    (figuresOf rows).totals = (figuresOf rows').totals := by
  rw [totals_figuresOf, totals_figuresOf, h.length_eq, (h.map _).sum_eq, (h.map _).sum_eq]

theorem rates_figuresOf (rows : List (Row F)) : (figuresOf rows).rates = ratesOf rows :=
  (List.foldl_hom Figures.rates fun _ _ => rfl).symm

omit [Double F] in
/-- Figures are their totals and their rates. -/
theorem Figures.eq_iff {f f' : Figures F} : f = f' ↔ f.totals = f'.totals ∧ f.rates = f'.rates := by
  constructor
  · rintro rfl
    exact ⟨rfl, rfl⟩
  · obtain ⟨flows, rxRate, txRate, rxBytes, txBytes⟩ := f
    simp only [Figures.totals, Figures.rates, Prod.mk.injEq, and_imp]
    rintro rfl rfl rfl rfl rfl
    rfl

/-- In whatever order the rates of the rows are added up, the sums are the same. -/
def OrderFree (rows : List (Row F)) : Prop :=
  ∀ order : List (Row F), order.Perm rows → ratesOf order = ratesOf rows

/-- Exact sums are so. -/
theorem orderFree_of_add
    (hadd : ∀ a b c : F, Double.add (Double.add a b) c = Double.add (Double.add a c) b)
    (rows : List (Row F)) : OrderFree rows := by
  intro order hperm
  refine hperm.foldl_eq' (fun r _ r' _ s => ?_) _
  rw [hadd s.1, hadd s.2]

theorem figures_foldl {n : ℕ} (row : Fin n → Row F) (members : List (Fin n)) (gs : GroupSummary F)
    (k : ℕ) :
    (members.map row).foldl Figures.add ⟨k, gs.rxRate, gs.txRate, gs.rxBytes, gs.txBytes⟩ =
      let gs := members.foldl (fun gs i => gs.add (row i) i) gs
      ⟨k + members.length, gs.rxRate, gs.txRate, gs.rxBytes, gs.txBytes⟩ := by
  induction members generalizing gs k with
  | nil => rfl
  | cons i members ih =>
      have hlength : k + (i :: members).length = k + 1 + members.length := by
        rw [List.length_cons]
        omega
      rw [List.map_cons, List.foldl_cons, List.foldl_cons, hlength]
      exact ih (gs.add (row i) i) (k + 1)

theorem figures_summarise (mode : GroupBy) (rows : List (Row F)) (k : QString)
    (members : List (Fin rows.length)) :
    (⟨k, members, summarise mode rows members⟩ : Group rows.length F).figures =
      figuresOf (members.map rows.get) := by
  have hfold := figures_foldl rows.get members
    { rxRate := Double.ofInt 0, txRate := Double.ofInt 0
      minSrc := members.head?.elim 0 Fin.val } 0
  rw [Nat.zero_add] at hfold
  exact hfold.symm

/-- What the window's loop finds. -/
theorem foldl_step (mode : GroupBy) (key : QString) (rows : List (Row F)) (s : GroupScan F) :
    (rows.foldl (GroupScan.step mode key) s).figures =
        (rows.filter fun r => groupKeyFor mode r.current = key).foldl Figures.add s.figures ∧
      ((rows.foldl (GroupScan.step mode key) s).found = true ↔
        s.found = true ∨ ∃ r ∈ rows, groupKeyFor mode r.current = key) := by
  induction rows generalizing s with
  | nil => simp
  | cons r rows ih =>
      rw [List.foldl_cons, GroupScan.step]
      split
      · rename_i hr
        rw [List.filter_cons_of_neg (by simpa using hr)]
        simpa [hr] using ih s
      · rename_i hr
        rw [not_not] at hr
        obtain ⟨hfigures, hfound⟩ :=
          ih ⟨s.figures.add r, if s.found then s.rep else r.current, true⟩
        rw [List.filter_cons_of_pos (by simpa using hr), List.foldl_cons]
        refine ⟨hfigures, iff_of_true (hfound.mpr (.inl rfl)) (.inr ⟨r, by simp, hr⟩)⟩

/-! ### The header -/

variable (T : TextOps F) (cachedHostname : QHostAddress → QString)
  (compare : QString → QString → Int)

theorem atCursor_map {α β : Type} (f : α → β) (cursor : Int) (rows : List α) :
    atCursor cursor (rows.map f) = (atCursor cursor rows).map f := by
  unfold atCursor
  split
  · rfl
  · exact List.getElem?_map

/-- A header of the frame is that of a group shown. -/
theorem mem_groups_of_header {app : TuiApp F} {rows : List (Row F)} {g : Group rows.length F}
    {collapsed : Bool} {cursor : Int}
    (h : atCursor cursor (plan T cachedHostname compare app rows) = some (.header g collapsed)) :
    app.groupBy ≠ .None ∧ g ∈ groups T cachedHostname compare app rows := by
  refine mem_groups_of_mem_headers T cachedHostname compare ?_
  unfold atCursor at h
  split at h
  · cases h
  · exact List.mem_filterMap.mpr ⟨_, List.mem_of_getElem? h, rfl⟩

/-- **A header** shows the figures of its members. -/
theorem figures_groups {app : TuiApp F} {rows : List (Row F)} {g : Group rows.length F}
    (hg : g ∈ groups T cachedHostname compare app rows) :
    g.figures = figuresOf (g.members.map rows.get) := by
  obtain ⟨i, -, rfl⟩ := (mem_groups_iff T cachedHostname compare app rows g).mp hg
  exact figures_summarise app.groupBy rows _ _

/-- Choosing among the rows by index. -/
theorem map_get_filter {α : Type} (rows : List α) (p : α → Bool) :
    ((List.finRange rows.length).filter fun i => p (rows.get i)).map rows.get = rows.filter p := by
  have h : (((List.finRange rows.length).map rows.get).filter p) = _ := List.filter_map
  rw [List.map_get_finRange] at h
  exact h.symm

/-- Its members are the rows of its key that pass the filter, in the order they are shown in. -/
theorem members_perm_finRange {app : TuiApp F} {rows : List (Row F)} {g : Group rows.length F}
    (hg : g ∈ groups T cachedHostname compare app rows) :
    g.members.Perm ((List.finRange rows.length).filter fun i =>
      decide (groupKeyFor app.groupBy (rows.get i).current = g.key) &&
        passes T cachedHostname app.filterExpr (rows.get i)) := by
  rw [members_of_mem_groups T cachedHostname compare hg]
  exact (sortedConnectionIndices_perm rows app.connSortField app.connSortDesc).filter _

theorem members_perm {app : TuiApp F} {rows : List (Row F)} {g : Group rows.length F}
    (hg : g ∈ groups T cachedHostname compare app rows) :
    (g.members.map rows.get).Perm (rows.filter fun r =>
      decide (groupKeyFor app.groupBy r.current = g.key) &&
        passes T cachedHostname app.filterExpr r) := by
  refine ((members_perm_finRange T cachedHostname compare hg).map _).trans (List.Perm.of_eq ?_)
  exact map_get_filter rows fun r => decide (groupKeyFor app.groupBy r.current = g.key) &&
    passes T cachedHostname app.filterExpr r

/-! ### The window -/

/-- The rows of a key, in the order of the list. -/
def withKey (mode : GroupBy) (rows : List (Row F)) (key : QString) : List (Row F) :=
  rows.filter fun r => groupKeyFor mode r.current = key

/-- **The detail overlay** shows a group's figures when it has a group key that some row has: those of
all rows of the key. -/
theorem figures_buildModal {app : TuiApp F} (hoverlay : app.overlay = .Detail)
    (ifaceRows : List I) {rows : List (Row F)}
    (hfound : ∃ r ∈ rows, groupKeyFor app.detailGroupBy r.current = app.detailGroupKey) :
    (buildModal interfaceKey procDetails app ifaceRows rows).bind Modal.figures =
      if app.detailGroupKey = [] then none
      else some (figuresOf (withKey app.detailGroupBy rows app.detailGroupKey)) := by
  rw [buildModal, if_neg (by simp [hoverlay])]
  by_cases hkey : app.detailGroupKey = []
  · rw [if_neg (by simp [hkey]), if_pos hkey]
    split
    · split <;> rfl
    · split <;> rfl
  · obtain ⟨hfigures, hscan⟩ := foldl_step app.detailGroupBy app.detailGroupKey rows ⟨.zero, {}, false⟩
    dsimp only
    rw [if_pos (by simp [hkey]), if_pos (hscan.mpr (.inr hfound)), if_neg hkey]
    exact congrArg some hfigures

/-- Enter on a header opens the window of its key. -/
theorem openGroupDetail_header {app : TuiApp F} (hview : app.view = .Connections)
    {rows : List (Row F)} {g : Group rows.length F} {collapsed : Bool}
    (h : atCursor app.connCursor (plan T cachedHostname compare app rows) =
      some (.header g collapsed)) :
    openGroupDetail app ((plan T cachedHostname compare app rows).map (rowRef rows)) =
      { app with
        detailGroupKey := g.key
        detailGroupBy := app.groupBy
        detailView := .Connections
        overlay := .Detail } := by
  have hmode := (mem_groups_of_header T cachedHostname compare h).1
  rw [openGroupDetail, if_neg (by simp [hview, hmode]), atCursor_map, h]
  rfl

/-- The rows of the group's key all pass the filter. -/
def AllPass (app : TuiApp F) (rows : List (Row F)) (key : QString) : Prop :=
  ∀ r ∈ rows, groupKeyFor app.groupBy r.current = key → passes T cachedHostname app.filterExpr r

/-- Then the filter takes nothing from the group. -/
theorem AllPass.filter_eq {app : TuiApp F} {rows : List (Row F)} {key : QString}
    (h : AllPass T cachedHostname app rows key) :
    (rows.filter fun r => decide (groupKeyFor app.groupBy r.current = key) &&
        passes T cachedHostname app.filterExpr r) = withKey app.groupBy rows key := by
  refine List.filter_congr fun r hr => ?_
  by_cases hkey : groupKeyFor app.groupBy r.current = key
  · simp [hkey, h r hr hkey]
  · simp [hkey]

/-- Otherwise it takes some row. -/
theorem allPass_of_length_eq {app : TuiApp F} {rows : List (Row F)} {key : QString}
    (h : (rows.filter fun r => decide (groupKeyFor app.groupBy r.current = key) &&
        passes T cachedHostname app.filterExpr r).length = (withKey app.groupBy rows key).length) :
    AllPass T cachedHostname app rows key := by
  have hand : ∀ r, (decide (groupKeyFor app.groupBy r.current = key) &&
      passes T cachedHostname app.filterExpr r) = (passes T cachedHostname app.filterExpr r &&
        decide (groupKeyFor app.groupBy r.current = key)) := fun r => Bool.and_comm _ _
  simp only [withKey, hand] at h
  rw [← List.filter_filter, List.length_filter_eq_length_iff] at h
  intro r hr hkey
  exact h r (List.mem_filter.mpr ⟨hr, by simpa using hkey⟩)

/-- A group all rows of which pass the filter has them all, in some order. -/
theorem AllPass.members_perm {app : TuiApp F} {rows : List (Row F)} {g : Group rows.length F}
    (hg : g ∈ groups T cachedHostname compare app rows)
    (hpass : AllPass T cachedHostname app rows g.key) :
    (g.members.map rows.get).Perm (withKey app.groupBy rows g.key) := by
  rw [← hpass.filter_eq]
  exact Tui.members_perm T cachedHostname compare hg

/-- The flows and the bytes are those of the key just when all rows of the key pass the filter. -/
theorem totals_members_iff {app : TuiApp F} {rows : List (Row F)} {g : Group rows.length F}
    (hg : g ∈ groups T cachedHostname compare app rows) :
    (figuresOf (withKey app.groupBy rows g.key)).totals = g.figures.totals ↔
      AllPass T cachedHostname app rows g.key := by
  rw [figures_groups T cachedHostname compare hg]
  constructor
  · intro htotals
    -- the two count the same flows
    have hflows := congrArg Prod.fst htotals
    rw [totals_figuresOf, totals_figuresOf] at hflows
    refine allPass_of_length_eq T cachedHostname ?_
    rw [← (Tui.members_perm T cachedHostname compare hg).length_eq]
    exact hflows.symm
  · intro hpass
    exact (totals_perm (hpass.members_perm T cachedHostname compare hg)).symm

/-- Rates that are added up in the order of the list, or in whatever order, add up to those of the key. -/
theorem AllPass.rates_eq {app : TuiApp F} {rows : List (Row F)} {g : Group rows.length F}
    (hg : g ∈ groups T cachedHostname compare app rows)
    (hpass : AllPass T cachedHostname app rows g.key)
    (horder : g.members.Pairwise (· < ·) ∨ OrderFree (withKey app.groupBy rows g.key)) :
    ratesOf (g.members.map rows.get) = ratesOf (withKey app.groupBy rows g.key) := by
  rcases horder with hrows | hfree
  · -- two ascending lists of the same indices
    have hmembers := (members_perm_finRange T cachedHostname compare hg).eq_of_pairwise
      (fun i j _ _ hij hji => absurd hij hji.asymm) hrows
      ((List.pairwise_lt_finRange rows.length).filter _)
    rw [hmembers, ← hpass.filter_eq]
    exact congrArg ratesOf (map_get_filter rows fun r =>
      decide (groupKeyFor app.groupBy r.current = g.key) && passes T cachedHostname app.filterExpr r)
  · exact hfree _ (hpass.members_perm T cachedHostname compare hg)

/-- **The group window agrees with the header** in the flows and the bytes exactly when the group has a
key and all rows of the key pass the filter, and in the rates as well exactly when they add up alike in
the order the group shows its rows in and in the order of the list.  They do where the two orders are one,
and where no order changes the sums. -/
theorem group_window_agrees_iff (app : TuiApp F) (hview : app.view = .Connections)
    (rows : List (Row F)) (ifaceRows : List I) {g : Group rows.length F} {collapsed : Bool}
    (h : atCursor app.connCursor (plan T cachedHostname compare app rows) =
      some (.header g collapsed)) :
    let shown := (buildModal interfaceKey procDetails
      (openGroupDetail app ((plan T cachedHostname compare app rows).map (rowRef rows))) ifaceRows
      rows).bind Modal.figures
    let own := withKey app.groupBy rows g.key
    (shown.map Figures.totals = some g.figures.totals ↔
        g.key ≠ [] ∧ AllPass T cachedHostname app rows g.key) ∧
      (shown = some g.figures ↔ g.key ≠ [] ∧ AllPass T cachedHostname app rows g.key ∧
        ratesOf (g.members.map rows.get) = ratesOf own) ∧
      (AllPass T cachedHostname app rows g.key →
        g.members.Pairwise (· < ·) ∨ OrderFree own →
        ratesOf (g.members.map rows.get) = ratesOf own) := by
  intro shown own
  obtain ⟨-, hg⟩ := mem_groups_of_header T cachedHostname compare h
  have hrow : ∃ r ∈ rows, groupKeyFor app.groupBy r.current = g.key := by
    obtain ⟨i, -, rfl⟩ := (mem_groups_iff T cachedHostname compare app rows g).mp hg
    exact ⟨rows.get i, List.get_mem rows i, rfl⟩
  have hshown : shown = if g.key = [] then none else some (figuresOf own) := by
    dsimp only [shown]
    rw [openGroupDetail_header T cachedHostname compare hview h]
    exact figures_buildModal interfaceKey procDetails rfl ifaceRows hrow
  have htotals := totals_members_iff T cachedHostname compare hg
  have hrates : g.figures.rates = ratesOf (g.members.map rows.get) := by
    rw [figures_groups T cachedHostname compare hg, rates_figuresOf]
  refine ⟨?_, ?_, fun hpass => hpass.rates_eq T cachedHostname compare hg⟩
  · rw [hshown, ← htotals]
    split <;> simp [*, own]
  · rw [hshown, ← htotals, ← hrates, ← rates_figuresOf]
    split
    · rename_i hkey
      simp [hkey]
    · rename_i hkey
      rw [Option.some.injEq, Figures.eq_iff, eq_comm (a := (figuresOf own).rates)]
      exact (and_iff_right hkey).symm

end

/-- What the header under the cursor and the window it opens show, without host names. -/
def headerAndWindow {F : Type} [Double F] (T : TextOps F) (app : TuiApp F) (rows : List (Row F)) :
    Option (Figures F) × Option (Figures F) :=
  let frame := plan T (fun _ => []) (fun _ _ => 0) app rows
  ((atCursor app.connCursor frame).bind fun r => r.headed.map Group.figures,
    (buildModal id ∅ (openGroupDetail app (frame.map (rowRef rows))) [] rows).bind Modal.figures)

/-- `rate_in > 2` -/
def loudOnly : ExprPtr ℚ :=
  .pred { field := .RateIn, op := .Gt, textValue := "2".toList, numValue := some 2 }

/-- The filter's texts, over the doubles. -/
def doubleTexts : TextOps Binary64 :=
  { TextOps.ascii with toDouble := fun s => (TextOps.ascii.toDouble s).map .ofRat }

/-- Three flows on one interface, with rates that are not sums of powers of two. -/
def tenths : List (Row Binary64) :=
  [flowOn "eth0" (.ofRat (1 / 10)), flowOn "eth0" (.ofRat (2 / 10)), flowOn "eth0" (.ofRat (7 / 10))]

/-- The window of the flows without an interface is no group's; under a filter the window of `eth0`
counts a flow that the header does not; and with the loudest flow on top the header of `eth0` adds up
0.7, 0.2 and 0.1, which is less than one, the window 0.1, 0.2 and 0.7, which is one. -/
theorem windows_disagree :
    headerAndWindow .ascii byInterface [flowOn "" 5] = (some ⟨1, 5, 0, 1, 0⟩, none) ∧
      headerAndWindow .ascii { byInterface with filterExpr := loudOnly, connCursor := 2 } threeFlows =
        (some ⟨1, 3, 0, 1, 0⟩, some ⟨2, 4, 0, 2, 0⟩) ∧
      headerAndWindow doubleTexts
          { groupBy := .Interface, connSortField := .RxRate, connSortDesc := true } tenths =
        (some ⟨3, .ofRat (1 - 1 / 2 ^ 53), .ofRat 0, 3, 0⟩, some ⟨3, .ofRat 1, .ofRat 0, 3, 0⟩) := by
  decide +kernel

/-- Without a filter the window of `eth0` agrees. -/
theorem eth0_window_agrees :
    headerAndWindow .ascii byInterface threeFlows =
      (some ⟨2, 4, 0, 2, 0⟩, some ⟨2, 4, 0, 2, 0⟩) := by
  obtain ⟨g, collapsed, hcursor⟩ : ∃ g collapsed, atCursor byInterface.connCursor
      (plan TextOps.ascii (fun _ => []) (fun _ _ => 0) byInterface threeFlows) =
        some (.header g collapsed) := ⟨_, _, rfl⟩
  have hfigures : g.figures = ⟨2, 4, 0, 2, 0⟩ ∧ g.key ≠ [] := by
    have hheader : ((atCursor byInterface.connCursor (plan TextOps.ascii (fun _ => [])
        (fun _ _ => 0) byInterface threeFlows)).bind fun r => r.headed.map fun g =>
          (g.figures, g.key)) = some (⟨2, 4, 0, 2, 0⟩, "eth0".toList) := by decide +kernel
    rw [hcursor] at hheader
    obtain ⟨hf, hk⟩ := Prod.mk.inj (Option.some.inj hheader)
    exact ⟨hf, hk ▸ List.cons_ne_nil _ _⟩
  obtain ⟨-, hwindow, hsums⟩ := group_window_agrees_iff id ∅ TextOps.ascii (fun _ => [])
    (fun _ _ => 0) byInterface rfl threeFlows [] hcursor
  have hpass : AllPass TextOps.ascii (fun _ => []) byInterface threeFlows g.key := fun r _ _ => rfl
  have hfree := orderFree_of_add (F := ℚ) (fun a b c => add_right_comm a b c)
  have hshown := hwindow.mpr ⟨hfigures.2, hpass, hsums hpass (.inr (hfree _))⟩
  rw [headerAndWindow, hshown, hcursor, ← hfigures.1]
  rfl

end Qiftop.Tui
