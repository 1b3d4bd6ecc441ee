import Mathlib.Logic.Function.Basic
import Qiftop.Tui.KeyRuns

/-!
# Tui — the saved settings

`TuiApp::loadSettings` and `TuiApp::saveSettings`, with the tokens of `tui/TuiFormat.h`, and the state a
`TuiApp` starts in.  A settings file has a text for each key; other programs and older versions may have
written anything there.

* `start_valid`: whatever the file and the options of the command line say, the first state is valid.
* `load_save`: what is saved is loaded again, over any settings file and into any state.
-/

namespace Qiftop.Tui
open Qt Backend Aggregate Lib Qiftop.Filter

/-! ### The file -/

/-- The group `nqiftop` of `QSettings`, by key. -/
abbrev SettingsFile := QString → Option QString

/-- `QVariant::toBool` of a text. -/
def toBool (s : QString) : Bool :=
  !(s.isEmpty || toLower s == "0".toList || toLower s == "false".toList)

def boolText (b : Bool) : QString := if b then "true".toList else "false".toList

namespace SettingsFile
variable (file : SettingsFile)

def text (key : String) (default : QString) : QString := (file key.toList).getD default

def int (key : String) (default : Int) : Int := ((file key.toList).map variantToInt).getD default

def bool (key : String) (default : Bool) : Bool := ((file key.toList).map toBool).getD default

def set (key : String) (value : QString) : SettingsFile := Function.update file key.toList (some value)

end SettingsFile

/-! ### Tokens -/

def columnIdToken : ColumnId → QString
  | .Flow => "flow".toList
  | .RxRate => "rxRate".toList
  | .TxRate => "txRate".toList
  | .RxTotal => "rxTotal".toList
  | .TxTotal => "txTotal".toList
  | .Process => "process".toList
  | .Container => "container".toList
  | .Interface => "interface".toList
  | .Mtu => "mtu".toList
  | .State => "state".toList
  | .ErrDrop => "errDrop".toList

def columnTokens : List (String × ColumnId) :=
  [("flow", .Flow), ("rxRate", .RxRate), ("txRate", .TxRate), ("rxTotal", .RxTotal), ("txTotal", .TxTotal),
    ("process", .Process), ("container", .Container), ("interface", .Interface), ("mtu", .Mtu),
    ("state", .State), ("errDrop", .ErrDrop)]

def columnIdFromToken (token : QString) (fallback : ColumnId) : ColumnId :=
  ((columnTokens.find? fun e => token = e.1.toList).map Prod.snd).getD fallback

/-- The column of an index of older versions. -/
def columnIdForLegacyIndex (v : View) (idx : Int) : ColumnId :=
  match v with
  | .Interfaces =>
      if idx = 1 then .RxRate else if idx = 2 then .TxRate else if idx = 3 then .RxTotal
      else if idx = 4 then .TxTotal else if idx = 5 then .Mtu else if idx = 6 then .State
      else if idx = 7 then .ErrDrop else .Interface
  | .Connections =>
      if idx = 0 then .Flow else if idx = 2 then .TxRate else if idx = 3 then .RxTotal
      else if idx = 4 then .TxTotal else .RxRate

def View.toInt : View → Int
  | .Interfaces => 0
  | .Connections => 1

section
variable {F : Type} [Double F] (T : TextOps F)

/-- The modes of the names and their short forms, `Count` for other names. -/
def groupByFromName (name : QString) : GroupBy :=
  let n := T.toLower (T.trimmed name)
  if n = "off".toList ∨ n = "none".toList ∨ n = "flat".toList then .None
  else if n = "interface".toList ∨ n = "iface".toList ∨ n = "if".toList then .Interface
  else if n = "process".toList ∨ n = "proc".toList then .Process
  else if n = "container".toList ∨ n = "ctr".toList then .Container
  else .Count

/-- The theme of a name, whatever its case. -/
def themeIdxFor (name : QString) (current : ℕ) : ℕ :=
  if name.isEmpty then current
  else (themeNames.findIdx? fun t => T.same t name).getD current

/-! ### Loading -/

/-- The sort field of a view: an index of older versions, then a token, and the default of the view if
the view has no such column. -/
def loadSortField (file : SettingsFile) (v : View) (legacyKey key : String) (current default : ColumnId) :
    ColumnId :=
  let legacy := file.int legacyKey (-1)
  let field := if legacy ≥ 0 then columnIdForLegacyIndex v legacy else current
  let field := columnIdFromToken (file.text key []) field
  if visualIndexForColumn (overlayColumnsFor v) field < 0 then default else field

def loadGroupBy (file : SettingsFile) (current : GroupBy) : GroupBy :=
  let g := file.int "groupBy" current.index
  if 0 ≤ g ∧ g < GroupBy.Count.index then .ofIndex g.toNat else .None

def loadSettings (file : SettingsFile) (s : TuiKeyState F) : TuiKeyState F :=
  { s with
    view := if file.int "view" s.view.toInt = View.Interfaces.toInt then .Interfaces else .Connections
    ifaceSortField := loadSortField file .Interfaces "ifaceSortCol" "ifaceSortField" s.ifaceSortField .Interface
    connSortField := loadSortField file .Connections "connSortCol" "connSortField" s.connSortField .RxRate
    ifaceSortDesc := file.bool "ifaceSortDesc" s.ifaceSortDesc
    connSortDesc := file.bool "connSortDesc" s.connSortDesc
    gaugeEnabled := file.bool "gauge" s.gaugeEnabled
    dnsEnabled := file.bool "dns" s.dnsEnabled
    udpAggregate := file.bool "udpAggregate" s.udpAggregate
    smoothing := file.bool "smoothing" s.smoothing
    directionColors := file.bool "directionColors" s.directionColors
    sortWithinGroups := file.bool "sortWithinGroups" s.sortWithinGroups
    showProcessColumn := file.bool "showProcessColumn" s.showProcessColumn
    showContainerColumn := file.bool "showContainerColumn" s.showContainerColumn
    pollMs := clamp (file.int "pollMs" s.pollMs) 100 10000
    attributionEagerness := file.text "attributionEagerness" s.attributionEagerness
    groupBy := loadGroupBy file s.groupBy
    themeIdx := themeIdxFor T (file.text "theme" []) s.themeIdx }

/-- What is saved, in the order it is written. -/
def savedEntries (s : TuiKeyState F) : List (String × QString) :=
  [("view", number s.view.toInt.toNat),
    ("ifaceSortField", columnIdToken s.ifaceSortField),
    ("ifaceSortDesc", boolText s.ifaceSortDesc),
    ("connSortField", columnIdToken s.connSortField),
    ("connSortDesc", boolText s.connSortDesc),
    ("gauge", boolText s.gaugeEnabled),
    ("dns", boolText s.dnsEnabled),
    ("udpAggregate", boolText s.udpAggregate),
    ("smoothing", boolText s.smoothing),
    ("directionColors", boolText s.directionColors),
    ("sortWithinGroups", boolText s.sortWithinGroups),
    ("showProcessColumn", boolText s.showProcessColumn),
    ("showContainerColumn", boolText s.showContainerColumn),
    ("pollMs", number s.pollMs.toNat),
    ("attributionEagerness", s.attributionEagerness),
    ("groupBy", number s.groupBy.index),
    ("theme", themeNames.getD s.themeIdx [])]

/-- The file as it is saved, unless that would write into another user's home. -/
def saveSettings (settingsWriteWouldEscalate : Bool) (s : TuiKeyState F) (file : SettingsFile) :
    SettingsFile :=
  if settingsWriteWouldEscalate then file
  else (savedEntries s).foldl (fun file e => file.set e.1 e.2) file

/-! ### Starting -/

/-- The options of the command line, `0` and empty texts where one is not given. -/
structure Options where
  themeName : QString := []
  pollMs : Int := 0
  viewName : QString := []
  groupName : QString := []

/-- The members as they are initialised. -/
def TuiKeyState.initial (source : Source F) (sourceLabel : QString) : TuiKeyState F :=
  { source, sourceLabel, ifaceSortField := .Interface, ifaceSortDesc := false }

def viewFor (name : QString) (current : View) : View :=
  match T.toLower (T.trimmed name) with
  | 'i' :: _ => .Interfaces
  | 'c' :: _ => .Connections
  | _ => current

/-- The constructor: the file, then the options. -/
def start (file : SettingsFile) (opts : Options) (source : Source F) (sourceLabel : QString) :
    TuiKeyState F :=
  let s := loadSettings T file (.initial source sourceLabel)
  { s with
    themeIdx := themeIdxFor T opts.themeName s.themeIdx
    pollMs := if opts.pollMs > 0 then clamp opts.pollMs 100 10000 else s.pollMs
    view := viewFor T opts.viewName s.view
    groupBy :=
      if opts.groupName.isEmpty then s.groupBy
      else
        let g := groupByFromName T opts.groupName
        if g = .Count then s.groupBy else g
    redrawPending := true }

/-! ### The first state -/

section Start

omit [Double F] in
theorem themeIdxFor_lt {current : ℕ} (h : current < builtinThemes) (name : QString) :
    themeIdxFor T name current < builtinThemes := by
  unfold themeIdxFor
  split
  · exact h
  · cases hfind : themeNames.findIdx? fun t => T.same t name with
    | none => exact h
    | some i => exact (List.findIdx?_eq_some_iff_findIdx_eq.mp hfind).1

theorem visualIndex_nonneg_iff (cols : List Column) (field : ColumnId) :
    0 ≤ visualIndexForColumn cols field ↔ field ∈ cols.map Column.id := by
  unfold visualIndexForColumn
  cases hfind : cols.findIdx? fun c => c.id = field with
  | none =>
      have hnone := List.findIdx?_eq_none_iff.mp hfind
      simp only [decide_eq_false_iff_not] at hnone
      refine iff_of_false (by simp) fun hmem => ?_
      obtain ⟨c, hc, heq⟩ := List.mem_map.mp hmem
      exact hnone c hc heq
  | some i =>
      obtain ⟨hi, heq, -⟩ := List.findIdx?_eq_some_iff_getElem.mp hfind
      exact iff_of_true (by simp) (List.mem_map.mpr ⟨_, List.getElem_mem hi, by simpa using heq⟩)

theorem loadSortField_mem (file : SettingsFile) (v : View) (legacyKey key : String)
    (current : ColumnId) {default : ColumnId} (h : default ∈ (overlayColumnsFor v).map Column.id) :
    loadSortField file v legacyKey key current default ∈ (overlayColumnsFor v).map Column.id := by
  unfold loadSortField
  dsimp only
  generalize columnIdFromToken _ _ = field
  split
  · exact h
  · next hindex => exact (visualIndex_nonneg_iff _ _).mp (not_lt.mp hindex)

theorem loadGroupBy_ne_count (file : SettingsFile) (current : GroupBy) :
    loadGroupBy file current ≠ .Count := by
  unfold loadGroupBy
  dsimp only
  split
  · next h =>
      have hall : ∀ i < 4, GroupBy.ofIndex i ≠ .Count := by decide
      have hcount : (GroupBy.Count.index : Int) = 4 := rfl
      exact hall _ (by omega)
  · decide

/-- **The first state is valid**, whatever the settings file says and whatever the options are. -/
theorem start_valid (file : SettingsFile) (opts : Options) (source : Source F) (sourceLabel : QString) :
    (start T file opts source sourceLabel).Valid T where
  frame := {
    groupBy := by
      unfold start loadSettings
      dsimp only
      split
      · exact loadGroupBy_ne_count _ _
      · split
        · exact loadGroupBy_ne_count _ _
        · assumption
    ifaceSort := loadSortField_mem _ _ _ _ _ (by decide)
    connSort := loadSortField_mem _ _ _ _ _ (by decide)
    ifaceCursor := le_rfl
    connCursor := le_rfl
    refs := nofun
    collapsed := .nil
    frozen := fun _ => ⟨rfl, rfl⟩ }
  overlay := absurd rfl
  line := nofun
  filterError := absurd rfl
  trimmed := rfl
  parses := congrArg ParseResult.error (parse_nil T)
  filter := congrArg ParseResult.expr (parse_nil T).symm
  settingsSel := (by decide : 0 < settingItems.length)
  fieldsSel := nofun
  themeIdx := themeIdxFor_lt T (themeIdxFor_lt T (by decide : 0 < builtinThemes) _) _
  pollMs := by
    have hrange := fun ms : Int => clamp_range (x := ms) (show (100 : Int) ≤ 10000 by decide)
    unfold start loadSettings
    dsimp only
    split
    · exact hrange _
    · exact hrange _
  requested := .nil
  inFlight := nofun
  details := nofun

/-- **From any settings file and any options**, every run of keys, repaints, new data and replies leaves
the state valid, and after each repaint the cursor is on a row that can be landed on, if there are rows. -/
theorem run_from_start_valid (compare : QString → QString → Int) (niceScale : F → F) (file : SettingsFile)
    (opts : Options) (source : Source F) (sourceLabel : QString) (es : List (Event F)) :
    (run (step T compare niceScale) (start T file opts source sourceLabel) es).1.Valid T ∧
      ∀ body, let s' := (run (step T compare niceScale) (start T file opts source sourceLabel)
          (es ++ [.redraw body])).1
        s'.rowRefs ≠ [] → ∃ ref, s'.refAtCursor = some ref ∧ ref.selectable := by
  refine ⟨run_valid T compare niceScale (start_valid T file opts source sourceLabel) es, fun body => ?_⟩
  rw [run_concat]
  exact redraw_cursor T compare niceScale _ body

end Start

/-! ### Saving and loading -/

section Saved

theorem foldl_set_of_notMem {l : List (String × QString)} {key : String} (h : key ∉ l.map Prod.fst)
    (file : SettingsFile) : l.foldl (fun file e => file.set e.1 e.2) file key.toList = file key.toList := by
  induction l generalizing file with
  | nil => rfl
  | cons e l ih =>
      rw [List.map_cons, List.mem_cons, not_or] at h
      rw [List.foldl_cons, ih h.2]
      exact Function.update_of_ne (fun heq => h.1 (String.toList_injective heq)) _ _

/-- What is written under different keys is all there. -/
theorem foldl_set_of_mem {l : List (String × QString)} (hnodup : (l.map Prod.fst).Nodup)
    {e : String × QString} (h : e ∈ l) (file : SettingsFile) :
    l.foldl (fun file e => file.set e.1 e.2) file e.1.toList = some e.2 := by
  induction l generalizing file with
  | nil => cases h
  | cons e' l ih =>
      rw [List.map_cons, List.nodup_cons] at hnodup
      rw [List.foldl_cons]
      rcases List.mem_cons.mp h with rfl | h
      · rw [foldl_set_of_notMem hnodup.1]
        exact Function.update_self _ _ _
      · exact ih hnodup.2 h _

omit [Double F] in
theorem saved_get (s : TuiKeyState F) (file : SettingsFile) {key : String} {value : QString}
    (h : (key, value) ∈ savedEntries s) : saveSettings false s file key.toList = some value :=
  foldl_set_of_mem (e := (key, value)) (by simp [savedEntries]) h file

theorem dropWhile_of_none {α : Type} {p : α → Bool} {l : List α} (h : ∀ a ∈ l, p a = false) :
    l.dropWhile p = l := by
  cases l with
  | nil => rfl
  | cons a l => exact List.dropWhile_cons_of_neg (by simp [h a])

theorem digits_number (n : ℕ) : digits (number n) = some n := by
  have hdigit : ∀ c ∈ number n, c.isDigit = true := fun c hc =>
    Nat.isDigit_of_mem_toDigits (by decide) (by decide) hc
  have hvalue : (number n).foldl (fun n c => 10 * n + (c.toNat - 48)) 0 = n :=
    Nat.ofDigitChars_eq_foldl.symm.trans Nat.ofDigitChars_ten_toDigits
  rw [digits, if_pos ⟨List.ne_nil_of_length_pos Nat.length_toDigits_pos, List.all_eq_true.mpr hdigit⟩, hvalue]

/-- A number that fits is read as it was written. -/
theorem variantToInt_number {n : ℕ} (h : n ≤ 2147483647) : variantToInt (number n) = n := by
  have hdigit : ∀ c ∈ number n, c.isDigit = true := fun c hc =>
    Nat.isDigit_of_mem_toDigits (by decide) (by decide) hc
  have hspace : ∀ c ∈ number n, isSpace c = false := by
    intro c hc
    obtain ⟨h48, h57⟩ : 48 ≤ c.toNat ∧ c.toNat ≤ 57 := by
      simpa [Char.isDigit, UInt32.le_iff_toNat_le] using hdigit c hc
    simp [isSpace]
    omega
  have htrimmed : Qt.trimmed (number n) = number n := by
    rw [Qt.trimmed, trimmedBy, dropWhile_of_none hspace,
      dropWhile_of_none fun c hc => hspace c (List.mem_reverse.mp hc), List.reverse_reverse]
  have hinteger : integer (number n) = some n := by
    rw [integer, htrimmed]
    split
    · next s heq => exact absurd (hdigit '-' (heq ▸ List.mem_cons_self)) (by decide)
    · next s heq => exact absurd (hdigit '+' (heq ▸ List.mem_cons_self)) (by decide)
    · rw [digits_number]
      rfl
  have hlong : toLongLong (number n) = n := by
    rw [toLongLong, hinteger]
    exact if_pos (by omega)
  rw [variantToInt, hlong, Int32.toInt_ofInt_of_le (by omega) (by omega)]

theorem toBool_boolText (b : Bool) : toBool (boolText b) = b := by cases b <;> decide

theorem columnIdFromToken_token (id fallback : ColumnId) :
    columnIdFromToken (columnIdToken id) fallback = id := by
  cases id <;> cases fallback <;> decide

theorem ofIndex_index (g : GroupBy) : GroupBy.ofIndex g.index = g := by cases g <;> rfl

/-- The lower-case letters of the names fold to themselves. -/
def FoldsLetters : Prop := ∀ c : Char, 97 ≤ c.toNat → c.toNat ≤ 122 → T.caseFold c = c

omit [Double F] in
theorem themeIdxFor_name (hfold : FoldsLetters T) {i : ℕ} (hi : i < themeNames.length) (current : ℕ) :
    themeIdxFor T (themeNames.getD i []) current = i := by
  have hall : ∀ t ∈ themeNames, (t.all fun c => decide (97 ≤ c.toNat ∧ c.toNat ≤ 122)) = true := by decide
  have hletters : ∀ t ∈ themeNames, ∀ c ∈ t, 97 ≤ c.toNat ∧ c.toNat ≤ 122 := fun t ht c hc =>
    of_decide_eq_true (List.all_eq_true.mp (hall t ht) c hc)
  have hnames : ∀ t ∈ themeNames, t.map T.caseFold = t := fun t ht =>
    (List.map_congr_left fun c hc => hfold c (hletters t ht c hc).1 (hletters t ht c hc).2).trans
      (List.map_id t)
  have hsame : ∀ t ∈ themeNames, ∀ t' ∈ themeNames, T.same t t' = (t == t') := fun t ht t' ht' => by
    rw [TextOps.same, hnames t ht, hnames t' ht']
  have hget : themeNames.getD i [] = themeNames[i] := by
    rw [List.getD_eq_getElem?_getD, List.getElem?_eq_getElem hi, Option.getD_some]
  have hfind : themeNames.findIdx? (fun t => T.same t themeNames[i]) = some i := by
    refine List.findIdx?_eq_some_iff_getElem.mpr ⟨hi, ?_, fun j hj => ?_⟩
    · rw [hsame _ (List.getElem_mem _) _ (List.getElem_mem _)]
      exact beq_self_eq_true _
    · have hnodup : themeNames.Nodup := by decide
      rw [hsame _ (List.getElem_mem _) _ (List.getElem_mem _), beq_iff_eq]
      exact fun heq => hj.ne ((hnodup.getElem_inj_iff).mp heq)
  have hne : ∀ t ∈ themeNames, t.isEmpty = false := by decide
  rw [hget, themeIdxFor, hne _ (List.getElem_mem _), hfind]
  rfl

/-- **What is saved is loaded again**, whatever else the file has, an index of an older version too, and
whatever the state was before. -/
theorem load_save (hfold : FoldsLetters T) {s : TuiKeyState F} (h : s.Valid T) (file : SettingsFile)
    (s₀ : TuiKeyState F) :
    loadSettings T (saveSettings false s file) s₀ =
      { s₀ with
        view := s.view
        ifaceSortField := s.ifaceSortField
        connSortField := s.connSortField
        ifaceSortDesc := s.ifaceSortDesc
        connSortDesc := s.connSortDesc
        gaugeEnabled := s.gaugeEnabled
        dnsEnabled := s.dnsEnabled
        udpAggregate := s.udpAggregate
        smoothing := s.smoothing
        directionColors := s.directionColors
        sortWithinGroups := s.sortWithinGroups
        showProcessColumn := s.showProcessColumn
        showContainerColumn := s.showContainerColumn
        pollMs := s.pollMs
        attributionEagerness := s.attributionEagerness
        groupBy := s.groupBy
        themeIdx := s.themeIdx } := by
  have hint : ∀ {key : String} {n : ℕ} (default : Int), (key, number n) ∈ savedEntries s → n ≤ 2147483647 →
      (saveSettings false s file).int key default = n := by
    intro key n default hmem hn
    rw [SettingsFile.int, saved_get s file hmem]
    exact variantToInt_number hn
  have hbool : ∀ (key : String) (b : Bool), (key, boolText b) ∈ savedEntries s →
      ∀ default, (saveSettings false s file).bool key default = b := by
    intro key b hmem default
    rw [SettingsFile.bool, saved_get s file hmem]
    exact toBool_boolText b
  have htext : ∀ {key : String} {value : QString} (default : QString), (key, value) ∈ savedEntries s →
      (saveSettings false s file).text key default = value := by
    intro key value default hmem
    rw [SettingsFile.text, saved_get s file hmem]
    rfl
  have hsort : ∀ {v : View} {legacyKey key : String} {id : ColumnId} (current default : ColumnId),
      (key, columnIdToken id) ∈ savedEntries s → id ∈ (overlayColumnsFor v).map Column.id →
      loadSortField (saveSettings false s file) v legacyKey key current default = id := by
    intro v legacyKey key id current default hmem hid
    rw [loadSortField, htext [] hmem, columnIdFromToken_token,
      if_neg (not_lt.mpr ((visualIndex_nonneg_iff _ _).mpr hid))]
  have hview : (saveSettings false s file).int "view" s₀.view.toInt = s.view.toInt := by
    have hle : s.view.toInt.toNat ≤ 2147483647 := by cases s.view <;> decide
    rw [hint _ (by simp [savedEntries]) hle]
    cases s.view <;> rfl
  have hpoll : (saveSettings false s file).int "pollMs" s₀.pollMs = s.pollMs := by
    have hrange := h.pollMs
    rw [hint _ (by simp [savedEntries]) (show s.pollMs.toNat ≤ 2147483647 by omega)]
    omega
  have hgroup : loadGroupBy (saveSettings false s file) s₀.groupBy = s.groupBy := by
    have hindex : s.groupBy.index < 4 := by
      have hne := h.frame.groupBy
      cases hmode : s.groupBy <;> simp_all [GroupBy.index]
    rw [loadGroupBy, hint _ (by simp [savedEntries]) (show s.groupBy.index ≤ 2147483647 by omega)]
    rw [if_pos ⟨by omega, by exact_mod_cast hindex⟩, Int.toNat_natCast, ofIndex_index]
  have hviewOf : (if s.view.toInt = View.Interfaces.toInt then View.Interfaces else .Connections) = s.view := by
    cases s.view <;> decide
  have heagerness : (saveSettings false s file).text "attributionEagerness" s₀.attributionEagerness =
      s.attributionEagerness := htext _ (by simp [savedEntries])
  have htheme : (saveSettings false s file).text "theme" [] = themeNames.getD s.themeIdx [] :=
    htext _ (by simp [savedEntries])
  have hclamp : clamp s.pollMs 100 10000 = s.pollMs := by
    have hrange := h.pollMs
    rw [clamp_eq (by decide)]
    omega
  unfold loadSettings
  rw [hview, hviewOf, hpoll, hclamp, hgroup, heagerness, htheme,
    themeIdxFor_name T hfold h.themeIdx, hsort _ _ (by simp [savedEntries]) h.frame.ifaceSort,
    hsort _ _ (by simp [savedEntries]) h.frame.connSort]
  simp only [hbool "ifaceSortDesc" s.ifaceSortDesc (by simp [savedEntries]),
    hbool "connSortDesc" s.connSortDesc (by simp [savedEntries]),
    hbool "gauge" s.gaugeEnabled (by simp [savedEntries]),
    hbool "dns" s.dnsEnabled (by simp [savedEntries]),
    hbool "udpAggregate" s.udpAggregate (by simp [savedEntries]),
    hbool "smoothing" s.smoothing (by simp [savedEntries]),
    hbool "directionColors" s.directionColors (by simp [savedEntries]),
    hbool "sortWithinGroups" s.sortWithinGroups (by simp [savedEntries]),
    hbool "showProcessColumn" s.showProcessColumn (by simp [savedEntries]),
    hbool "showContainerColumn" s.showContainerColumn (by simp [savedEntries])]

end Saved

end

theorem foldsLetters_ascii : FoldsLetters TextOps.ascii := by
  intro c hlow _
  have hlower : ¬ (c.val ≥ 'A'.val ∧ c.val ≤ 'Z'.val) := fun hupper => by
    have hZ : c.toNat ≤ 90 := UInt32.le_iff_toNat_le.mp hupper.2
    omega
  exact dif_neg hlower

/-- Started with options, saved over an empty file, and loaded. -/
theorem options_saved :
    let s := start .ascii (fun _ => none) { pollMs := 50, viewName := "Iface".toList, groupName := "proc".toList }
      { texts := plainTexts } []
    let s' := loadSettings .ascii (saveSettings false s fun _ => none) (.initial { texts := plainTexts } [])
    s'.pollMs = 100 ∧ s'.view = .Interfaces ∧ s'.groupBy = .Process := by
  intro s s'
  have hload : s' = _ := load_save .ascii foldsLetters_ascii (start_valid .ascii _ _ _ _) _ _
  rw [hload]
  decide +kernel

end Qiftop.Tui
