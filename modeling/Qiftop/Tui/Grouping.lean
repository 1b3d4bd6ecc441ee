import Qiftop.Lib.Bucket
import Qiftop.Tui.TuiFormat
import Qiftop.Util.FilterDepth

/-!
# Tui — the grouped Connections view

What `TuiApp::buildFrame` makes of the rows of the Connections view: they are sorted and filtered, put
into buckets by group key, and shown bucket by bucket, each under a header with the bucket's figures.

* `mem_groups_iff`: the groups shown are the buckets of the rows that pass the filter.
* `sort_within_groups`: with `sortWithinGroups` no sort changes the groups or their order, and a group
  has the rows of its key that pass, in the order of the sort.
-/

namespace Qiftop.Tui
open Qt Backend Aggregate Lib Qiftop.Filter

inductive View where
  | Interfaces | Connections
  deriving DecidableEq, Repr

inductive Overlay where
  | None | Settings | Fields | Help | About | Detail
  deriving DecidableEq, Repr

/-- The members of `TuiApp` that decide what the Connections view and its group window show. -/
structure TuiApp (F : Type) where
  view : View := .Connections
  connSortField : ColumnId := .RxRate
  connSortDesc : Bool := true
  connCursor : Int := 0
  filterExpr : ExprPtr F := .null
  groupBy : GroupBy := .None
  sortWithinGroups : Bool := true
  collapsedGroups : List QString := []
  overlay : Overlay := .None
  detailKey : QString := []
  detailView : View := .Connections
  detailGroupKey : QString := []
  detailGroupBy : GroupBy := .None

/-- The choice of another sort. -/
def TuiApp.sortBy {F : Type} (app : TuiApp F) (field : ColumnId) (descending : Bool) : TuiApp F :=
  { app with connSortField := field, connSortDesc := descending }

/-- A bucket: its key, its rows and its figures. -/
structure Group (n : ℕ) (F : Type) where
  key : QString
  members : List (Fin n)
  summary : GroupSummary F

/-- A row of the frame.  A header has the cells of its group and says whether it is collapsed; a flow
says under which group it is indented. -/
inductive PlannedRow (n : ℕ) (F : Type) where
  | flow (src : Fin n) (group : Option QString)
  | header (g : Group n F) (collapsed : Bool)

/-- What the cursor finds at a row. -/
structure RowRef where
  selectable : Bool := false
  header : Bool := false
  key : QString := []
  groupKey : QString := []
  deriving DecidableEq, Repr

section
variable {F : Type} [Double F] (T : TextOps F) (cachedHostname : QHostAddress → QString)
  (compare : QString → QString → Int)

/-! ### The rows -/

/-- Whether a row passes the filter; without one, every row does. -/
def passes (filterExpr : ExprPtr F) (row : Row F) : Bool :=
  match filterExpr with
  | .null => true
  | expr => Filter.matches T expr
      { c := row.current
        rxRate := row.rxRate
        txRate := row.txRate
        hostnameLocal := cachedHostname row.current.local.address
        hostnameRemote := cachedHostname row.current.remote.address }

def displayedConnectionIndices (rows : List (Row F)) (sortField : ColumnId) (sortDesc : Bool)
    (filterExpr : ExprPtr F) : List (Fin rows.length) :=
  (sortedConnectionIndices rows sortField sortDesc).filter fun i =>
    passes T cachedHostname filterExpr (rows.get i)

theorem mem_displayedConnectionIndices (rows : List (Row F)) (sortField : ColumnId)
    (sortDesc : Bool) (filterExpr : ExprPtr F) (i : Fin rows.length) :
    i ∈ displayedConnectionIndices T cachedHostname rows sortField sortDesc filterExpr ↔
      passes T cachedHostname filterExpr (rows.get i) := by
  rw [displayedConnectionIndices, List.mem_filter,
    (sortedConnectionIndices_perm rows sortField sortDesc).mem_iff]
  simp

/-! ### The groups -/

/-- The group key of a row. -/
def rowGroup (mode : GroupBy) (rows : List (Row F)) (i : Fin rows.length) : QString :=
  groupKeyFor mode (rows.get i).current

/-- One member more. -/
def GroupSummary.add (gs : GroupSummary F) (row : Row F) (i : ℕ) : GroupSummary F :=
  { gs with
    rxRate := Double.add gs.rxRate row.rxRate
    txRate := Double.add gs.txRate row.txRate
    rxBytes := gs.rxBytes + row.current.rxBytes
    txBytes := gs.txBytes + row.current.txBytes
    minSrc := min gs.minSrc i }

/-- The figures of a bucket. -/
def summarise (mode : GroupBy) (rows : List (Row F)) (members : List (Fin rows.length)) :
    GroupSummary F :=
  let gs : GroupSummary F :=
    { rxRate := Double.ofInt 0
      txRate := Double.ofInt 0
      minSrc := members.head?.elim 0 Fin.val }
  { members.foldl (fun gs i => gs.add (rows.get i) i) gs with
    label := members.head?.elim [] fun i => groupLabelFor mode (rows.get i).current }

/-- The bucket of a key. -/
def groupOf (app : TuiApp F) (rows : List (Row F)) (k : QString) : Group rows.length F :=
  let matched := displayedConnectionIndices T cachedHostname rows app.connSortField
    app.connSortDesc app.filterExpr
  let members := ((Buckets.ofList (rowGroup app.groupBy rows) matched).buckets.lookup k).getD []
  ⟨k, members, summarise app.groupBy rows members⟩

/-- The buckets in the order their keys turn up. -/
def bucketed (app : TuiApp F) (rows : List (Row F)) : List (Group rows.length F) :=
  let matched := displayedConnectionIndices T cachedHostname rows app.connSortField
    app.connSortDesc app.filterExpr
  (Buckets.ofList (rowGroup app.groupBy rows) matched).firstSeen.map
    (groupOf T cachedHostname app rows)

/-- The buckets in the order they are shown. -/
def groups (app : TuiApp F) (rows : List (Row F)) : List (Group rows.length F) :=
  let gs := bucketed T cachedHostname app rows
  (orderedGroupIndices compare (fun i => (gs.get i).summary) app.connSortField app.connSortDesc
    app.sortWithinGroups).map gs.get

/-- A header and, unless it is collapsed, the rows under it. -/
def groupRows {n : ℕ} (collapsedGroups : List QString) (g : Group n F) : List (PlannedRow n F) :=
  let collapsed := collapsedGroups.contains g.key
  .header g collapsed ::
    if collapsed then [] else g.members.map fun i => .flow i (some g.key)

/-- The rows of the frame. -/
def plan (app : TuiApp F) (rows : List (Row F)) : List (PlannedRow rows.length F) :=
  if app.groupBy = .None then
    (displayedConnectionIndices T cachedHostname rows app.connSortField app.connSortDesc
      app.filterExpr).map fun i => .flow i none
  else (groups T cachedHostname compare app rows).flatMap (groupRows app.collapsedGroups)

def rowRef (rows : List (Row F)) : PlannedRow rows.length F → RowRef
  | .flow i group => ⟨true, false, (rows.get i).current.key, group.getD []⟩
  | .header g _ => ⟨true, true, [], g.key⟩

/-- The group a row is the header of. -/
def PlannedRow.headed {n : ℕ} : PlannedRow n F → Option (Group n F)
  | .flow _ _ => none
  | .header g _ => some g

/-- The groups whose headers a frame shows. -/
def headers {n : ℕ} (frame : List (PlannedRow n F)) : List (Group n F) :=
  frame.filterMap PlannedRow.headed

/-! ### What a group has -/

theorem members_groupOf (app : TuiApp F) (rows : List (Row F)) (k : QString) :
    (groupOf T cachedHostname app rows k).members =
      (displayedConnectionIndices T cachedHostname rows app.connSortField app.connSortDesc
        app.filterExpr).filter fun i => rowGroup app.groupBy rows i = k :=
  Buckets.lookup_buckets (rowGroup app.groupBy rows) _ k

theorem mem_members_groupOf (app : TuiApp F) (rows : List (Row F)) (k : QString)
    (i : Fin rows.length) :
    i ∈ (groupOf T cachedHostname app rows k).members ↔
      passes T cachedHostname app.filterExpr (rows.get i) ∧ rowGroup app.groupBy rows i = k := by
  rw [members_groupOf, List.mem_filter, mem_displayedConnectionIndices, decide_eq_true_iff]

theorem groups_perm (app : TuiApp F) (rows : List (Row F)) :
    (groups T cachedHostname compare app rows).Perm (bucketed T cachedHostname app rows) := by
  have hperm := (orderedGroupIndices_perm compare
    (fun i => ((bucketed T cachedHostname app rows).get i).summary) app.connSortField
    app.connSortDesc app.sortWithinGroups).map (bucketed T cachedHostname app rows).get
  rwa [List.map_get_finRange] at hperm

/-- **The groups shown** are the buckets of the rows that pass the filter. -/
theorem mem_groups_iff (app : TuiApp F) (rows : List (Row F)) (g : Group rows.length F) :
    g ∈ groups T cachedHostname compare app rows ↔
      ∃ i, passes T cachedHostname app.filterExpr (rows.get i) ∧
        g = groupOf T cachedHostname app rows (rowGroup app.groupBy rows i) := by
  rw [(groups_perm T cachedHostname compare app rows).mem_iff, bucketed]
  simp only [List.mem_map, Buckets.mem_firstSeen, mem_displayedConnectionIndices]
  constructor
  · rintro ⟨k, ⟨i, hi, rfl⟩, rfl⟩
    exact ⟨i, hi, rfl⟩
  · rintro ⟨i, hi, rfl⟩
    exact ⟨_, ⟨i, hi, rfl⟩, rfl⟩

/-- A group has the rows of its key that pass, in the order of the sort. -/
theorem members_of_mem_groups {app : TuiApp F} {rows : List (Row F)} {g : Group rows.length F}
    (hg : g ∈ groups T cachedHostname compare app rows) :
    g.members = (sortedConnectionIndices rows app.connSortField app.connSortDesc).filter fun i =>
      decide (groupKeyFor app.groupBy (rows.get i).current = g.key) &&
        passes T cachedHostname app.filterExpr (rows.get i) := by
  obtain ⟨i, -, rfl⟩ := (mem_groups_iff T cachedHostname compare app rows g).mp hg
  rw [members_groupOf, displayedConnectionIndices, List.filter_filter]
  rfl

theorem keys_bucketed (app : TuiApp F) (rows : List (Row F)) :
    (bucketed T cachedHostname app rows).map Group.key =
      (Buckets.ofList (rowGroup app.groupBy rows) (displayedConnectionIndices T cachedHostname rows
        app.connSortField app.connSortDesc app.filterExpr)).firstSeen := by
  rw [bucketed, List.map_map]
  exact List.map_id _

/-- No key is shown twice. -/
theorem nodup_keys (app : TuiApp F) (rows : List (Row F)) :
    ((groups T cachedHostname compare app rows).map Group.key).Nodup := by
  rw [((groups_perm T cachedHostname compare app rows).map Group.key).nodup_iff, keys_bucketed]
  exact Buckets.nodup_firstSeen _ _

/-! ### The first row of a group -/

theorem foldl_add_minSrc {n : ℕ} (row : Fin n → Row F) (members : List (Fin n))
    (gs : GroupSummary F) :
    (members.foldl (fun gs i => gs.add (row i) i) gs).minSrc =
      members.foldl (fun m i => min m i.val) gs.minSrc := by
  induction members generalizing gs with
  | nil => rfl
  | cons i members ih => exact ih _

/-- The least of a start and of the members is one of them. -/
theorem foldl_min_spec {n : ℕ} (members : List (Fin n)) (m : ℕ) :
    (members.foldl (fun m i => min m i.val) m = m ∨
        ∃ i ∈ members, i.val = members.foldl (fun m i => min m i.val) m) ∧
      members.foldl (fun m i => min m i.val) m ≤ m ∧
      ∀ i ∈ members, members.foldl (fun m i => min m i.val) m ≤ i := by
  induction members generalizing m with
  | nil => simp
  | cons i members ih =>
      obtain ⟨hmem, hle, hall⟩ := ih (min m i)
      rw [List.foldl_cons]
      refine ⟨?_, hle.trans (min_le_left _ _), ?_⟩
      · rcases hmem with heq | ⟨j, hj, heq⟩
        · rcases min_choice m i.val with hm | hi
          · exact .inl (heq.trans hm)
          · exact .inr ⟨i, by simp, (heq.trans hi).symm⟩
        · exact .inr ⟨j, by simp [hj], heq⟩
      · intro j hj
        rcases List.mem_cons.mp hj with rfl | hj
        · exact hle.trans (min_le_right _ _)
        · exact hall j hj

/-- `minSrc` is the least index in a bucket. -/
theorem minSrc_summarise (mode : GroupBy) (rows : List (Row F)) {members : List (Fin rows.length)}
    (hne : members ≠ []) :
    (∃ i ∈ members, i.val = (summarise mode rows members).minSrc) ∧
      ∀ i ∈ members, (summarise mode rows members).minSrc ≤ i := by
  obtain ⟨first, rest, rfl⟩ := List.exists_cons_of_ne_nil hne
  have hmin : (summarise mode rows (first :: rest)).minSrc =
      (first :: rest).foldl (fun m i => min m i.val) first.val :=
    foldl_add_minSrc rows.get (first :: rest) _
  obtain ⟨hmem, -, hall⟩ := foldl_min_spec (first :: rest) first.val
  rw [hmin]
  refine ⟨hmem.elim (fun heq => ⟨first, by simp, heq.symm⟩) id, hall⟩

/-! ### The order of the groups -/

/-- Some row of `k` that passes comes before all those of `k'`. -/
def Precedes (app : TuiApp F) (rows : List (Row F)) (k k' : QString) : Prop :=
  ∃ i, passes T cachedHostname app.filterExpr (rows.get i) ∧ rowGroup app.groupBy rows i = k ∧
    ∀ j, passes T cachedHostname app.filterExpr (rows.get j) → rowGroup app.groupBy rows j = k' →
      i ≤ j

theorem Precedes.antisymm {app : TuiApp F} {rows : List (Row F)} {k k' : QString}
    (h : Precedes T cachedHostname app rows k k') (h' : Precedes T cachedHostname app rows k' k) :
    k = k' := by
  obtain ⟨i, hi, hik, hall⟩ := h
  obtain ⟨j, hj, hjk, hall'⟩ := h'
  have hij : i = j := le_antisymm (hall j hj hjk) (hall' i hi hik)
  rw [← hik, ← hjk, hij]

theorem members_ne_nil {app : TuiApp F} {rows : List (Row F)} {g : Group rows.length F}
    (hg : g ∈ groups T cachedHostname compare app rows) : g.members ≠ [] := by
  obtain ⟨i, hi, rfl⟩ := (mem_groups_iff T cachedHostname compare app rows g).mp hg
  exact List.ne_nil_of_mem ((mem_members_groupOf T cachedHostname app rows _ i).mpr ⟨hi, rfl⟩)

/-- With `sortWithinGroups` the groups come by their first rows in the source. -/
theorem pairwise_precedes (app : TuiApp F) (h : app.sortWithinGroups = true)
    (rows : List (Row F)) :
    ((groups T cachedHostname compare app rows).map Group.key).Pairwise
      (Precedes T cachedHostname app rows) := by
  have hmin : (groups T cachedHostname compare app rows).Pairwise fun g g' =>
      g.summary.minSrc ≤ g'.summary.minSrc := by
    rw [groups, h]
    exact List.Pairwise.map _ (fun _ _ hle => hle) (pairwise_minSrc compare _ _ _)
  refine List.pairwise_map.mpr (hmin.imp_of_mem ?_)
  intro g g' hg hg' hle
  have hne := members_ne_nil T cachedHostname compare hg
  have hne' := members_ne_nil T cachedHostname compare hg'
  obtain ⟨i, -, rfl⟩ := (mem_groups_iff T cachedHostname compare app rows g).mp hg
  obtain ⟨i', -, rfl⟩ := (mem_groups_iff T cachedHostname compare app rows g').mp hg'
  -- the first row of `g` is one of its members, and not behind any of `g'`
  obtain ⟨⟨j, hj, hmin⟩, -⟩ := minSrc_summarise app.groupBy rows hne
  obtain ⟨-, hall⟩ := minSrc_summarise app.groupBy rows hne'
  have hjk := (mem_members_groupOf T cachedHostname app rows _ j).mp hj
  refine ⟨j, hjk.1, hjk.2, fun j' hj' hk' => ?_⟩
  have hj'mem := (mem_members_groupOf T cachedHostname app rows _ j').mpr ⟨hj', hk'⟩
  exact Fin.le_def.mpr (hmin.le.trans (hle.trans (hall j' hj'mem)))

/-- The keys shown are those of the rows that pass. -/
theorem mem_keys_iff (app : TuiApp F) (rows : List (Row F)) (k : QString) :
    k ∈ (groups T cachedHostname compare app rows).map Group.key ↔
      ∃ i, passes T cachedHostname app.filterExpr (rows.get i) ∧ rowGroup app.groupBy rows i = k := by
  simp only [List.mem_map, mem_groups_iff]
  constructor
  · rintro ⟨g, ⟨i, hi, rfl⟩, rfl⟩
    exact ⟨i, hi, rfl⟩
  · rintro ⟨i, hi, rfl⟩
    exact ⟨_, ⟨i, hi, rfl⟩, rfl⟩

/-- The keys are shown in the same order whatever the sort. -/
theorem keys_sortBy {app : TuiApp F} (h : app.sortWithinGroups = true) (rows : List (Row F))
    (field₁ field₂ : ColumnId) (desc₁ desc₂ : Bool) :
    (groups T cachedHostname compare (app.sortBy field₁ desc₁) rows).map Group.key =
      (groups T cachedHostname compare (app.sortBy field₂ desc₂) rows).map Group.key := by
  have hpairwise : ∀ field desc,
      ((groups T cachedHostname compare (app.sortBy field desc) rows).map Group.key).Pairwise
        (Precedes T cachedHostname app rows) := fun field desc =>
    pairwise_precedes T cachedHostname compare (app.sortBy field desc) h rows
  -- An order of keys without ties has one arrangement only.
  refine List.Perm.eq_of_pairwise (fun k k' _ _ => Precedes.antisymm T cachedHostname)
    (hpairwise field₁ desc₁) (hpairwise field₂ desc₂) ?_
  refine (List.perm_ext_iff_of_nodup (nodup_keys T cachedHostname compare _ rows)
    (nodup_keys T cachedHostname compare _ rows)).mpr fun k => ?_
  rw [mem_keys_iff, mem_keys_iff]
  rfl

/-! ### The frame -/

omit [Double F] in
theorem headers_groupRows {n : ℕ} (collapsedGroups : List QString) (g : Group n F) :
    headers (groupRows collapsedGroups g) = [g] := by
  have hflows : (g.members.map fun i => PlannedRow.flow (F := F) i (some g.key)).filterMap
      PlannedRow.headed = [] := by
    rw [List.filterMap_map, List.filterMap_eq_nil_iff]
    intro i _
    rfl
  rw [headers, groupRows, List.filterMap_cons]
  split
  · rename_i hnone
    cases hnone
  · rename_i g' hsome
    cases hsome
    split
    · rfl
    · rw [hflows]

theorem headers_plan (app : TuiApp F) (rows : List (Row F)) :
    headers (plan T cachedHostname compare app rows) =
      if app.groupBy = .None then [] else groups T cachedHostname compare app rows := by
  unfold plan
  split
  · rw [headers, List.filterMap_map, List.filterMap_eq_nil_iff]
    intro i _
    rfl
  · have hheaders : ∀ gs : List (Group rows.length F),
        headers (gs.flatMap (groupRows app.collapsedGroups)) = gs := by
      intro gs
      induction gs with
      | nil => rfl
      | cons g gs ih =>
          rw [List.flatMap_cons, headers, List.filterMap_append, ← headers, ← headers,
            headers_groupRows, ih]
          rfl
    exact hheaders _

theorem mem_groups_of_mem_headers {app : TuiApp F} {rows : List (Row F)} {g : Group rows.length F}
    (hg : g ∈ headers (plan T cachedHostname compare app rows)) :
    app.groupBy ≠ .None ∧ g ∈ groups T cachedHostname compare app rows := by
  rw [headers_plan] at hg
  split at hg
  · cases hg
  · rename_i hmode
    exact ⟨hmode, hg⟩

/-- A grouped frame is its headers, each with its rows. -/
theorem plan_eq_flatMap_headers (app : TuiApp F) (h : app.groupBy ≠ .None) (rows : List (Row F)) :
    plan T cachedHostname compare app rows =
      (headers (plan T cachedHostname compare app rows)).flatMap (groupRows app.collapsedGroups) := by
  rw [headers_plan, if_neg h, plan, if_neg h]

/-- **Sorting within groups leaves the groups in place**: any two sorts show the same groups in the
same order; each group has the rows of its key that pass the filter, as the chosen sort orders them,
and they are shown under its header. -/
theorem sort_within_groups (app : TuiApp F) (hwithin : app.sortWithinGroups = true)
    (rows : List (Row F)) (field field' : ColumnId) (desc desc' : Bool) :
    (headers (plan T cachedHostname compare (app.sortBy field desc) rows)).map Group.key =
        (headers (plan T cachedHostname compare (app.sortBy field' desc') rows)).map Group.key ∧
      (∀ g ∈ headers (plan T cachedHostname compare (app.sortBy field desc) rows),
        g.members = (sortedConnectionIndices rows field desc).filter (fun i =>
            decide (groupKeyFor app.groupBy (rows.get i).current = g.key) &&
              passes T cachedHostname app.filterExpr (rows.get i)) ∧
          (StrictWeak (Double.lt : F → F → Bool) →
            g.members.Pairwise fun i j => InOrder field desc (rows.get i) (rows.get j))) ∧
      (app.groupBy ≠ .None → plan T cachedHostname compare (app.sortBy field desc) rows =
        (headers (plan T cachedHostname compare (app.sortBy field desc) rows)).flatMap
          (groupRows app.collapsedGroups)) := by
  refine ⟨?_, fun g hg => ?_, fun hmode => ?_⟩
  · rw [headers_plan, headers_plan]
    -- neither sort changes the grouping
    change List.map _ (if app.groupBy = .None then _ else _) =
      List.map _ (if app.groupBy = .None then _ else _)
    split
    · rfl
    · exact keys_sortBy T cachedHostname compare hwithin rows field field' desc desc'
  · have hmembers := members_of_mem_groups T cachedHostname compare
      (mem_groups_of_mem_headers T cachedHostname compare hg).2
    refine ⟨hmembers, fun hdouble => ?_⟩
    rw [hmembers]
    exact (pairwise_sortedConnectionIndices hdouble rows field desc).filter _
  · exact plan_eq_flatMap_headers T cachedHostname compare (app.sortBy field desc) hmode rows

end

/-- A flow on an interface with a receive rate. -/
def flowOn {F : Type} [Double F] (iface : String) (rxRate : F) : Row F :=
  { Aggregator.newRow 0 { iface := iface.toList, rxBytes := 1 } with rxRate }

/-- The loudest flow is on the interface that comes second. -/
def threeFlows : List (Row ℚ) := [flowOn "eth0" 1, flowOn "wlan0" 5, flowOn "eth0" 3]

def byInterface : TuiApp ℚ := { groupBy := .Interface }

theorem threeFlows_in_place :
    (headers (plan TextOps.ascii (fun _ => []) (fun _ _ => 0) (byInterface.sortBy .RxRate true)
        threeFlows)).map Group.key =
      (headers (plan TextOps.ascii (fun _ => []) (fun _ _ => 0) (byInterface.sortBy .Flow false)
        threeFlows)).map Group.key ∧
      ∀ g ∈ headers (plan TextOps.ascii (fun _ => []) (fun _ _ => 0)
          (byInterface.sortBy .RxRate true) threeFlows),
        g.members.Pairwise fun i j => InOrder .RxRate true (threeFlows.get i) (threeFlows.get j) := by
  obtain ⟨hkeys, hmembers, -⟩ := sort_within_groups TextOps.ascii (fun _ => []) (fun _ _ => 0)
    byInterface rfl threeFlows .RxRate .Flow true false
  exact ⟨hkeys, fun g hg => (hmembers g hg).2 StrictWeak.linear⟩

example : (headers (plan TextOps.ascii (fun _ => []) (fun _ _ => 0) (byInterface.sortBy .RxRate true)
    threeFlows)).map (fun g => (g.key, g.members.map Fin.val)) =
      [("eth0".toList, [2, 0]), ("wlan0".toList, [1])] := by
  decide +kernel

end Qiftop.Tui
