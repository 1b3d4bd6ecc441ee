import Qiftop.Lib.Ranges
import Qiftop.Lib.Run
import Qiftop.Aggregate.Rows

/-!
# Aggregate — change signals

`updateConnections` announces what it does to its rows while it does it: runs of updated rows
(`RowUpdateRuns`), the removals from the back one by one, and the new rows at the end.  Here the call
is run with the signals it emits, each with the rows there are at that moment, and an observer keeps
a list of its own by them.

* `updating_foldl`: the update loop before every row; `rows_prune`: what pruning from the back leaves.
* `emitting_spec`: the rows of a call are those of `updateConnections`, its updated ranges are the
  refreshed and the newly stale rows, and an observer that had the rows has them again.
* `signals_replayable`: so for every sequence of calls.

Indexes are integers; the source's `int(i)` is not narrowed here.
-/

namespace Qiftop.Aggregate
open Qt Lib Backend

/-! ### Signals and what observers do with them -/

inductive Signal where
  | rowsUpdated (first last : Int)
  | rowsAboutToBeInserted (first last : Int)
  | rowsInserted
  | rowsAboutToBeRemoved (first last : Int)
  | rowsRemoved
  deriving DecidableEq, Repr

section
variable {F : Type}

/-- A signal and the aggregator's rows when it is emitted. -/
structure Emission (F : Type) where
  signal : Signal
  rows : List (Row F)

/-- The rows in the middle of a call, and what has been emitted so far. -/
structure Emitting (F : Type) where
  rows : List (Row F)
  log : List (Emission F) := []

def Emitting.emit (t : Emitting F) (signal : Signal) : Emitting F :=
  { t with log := t.log ++ [⟨signal, t.rows⟩] }

/-- An observer: its rows, and the range announced by the last `rowsAboutTo…`. -/
structure Observer (F : Type) where
  rows : List (Row F)
  announced : Option (Int × Int) := none

/-- Updated rows are copied at once.  A removal or an insertion is carried out when it is complete,
in the range announced; inserted rows are copied then. -/
def Observer.observe (o : Observer F) (e : Emission F) : Observer F :=
  match e.signal, o.announced with
  | .rowsUpdated first last, _ =>
      { o with rows := o.rows.mapIdx fun i r =>
          if first ≤ i ∧ i ≤ last then (e.rows[i]?).getD r else r }
  | .rowsAboutToBeInserted first last, _ => { o with announced := some (first, last) }
  | .rowsAboutToBeRemoved first last, _ => { o with announced := some (first, last) }
  | .rowsInserted, some (first, last) =>
      { rows := o.rows.take first.toNat ++
          ((e.rows.drop first.toNat).take (last + 1 - first).toNat ++ o.rows.drop first.toNat) }
  | .rowsRemoved, some (first, last) =>
      { rows := o.rows.take first.toNat ++ o.rows.drop (last + 1).toNat }
  | .rowsInserted, none => o
  | .rowsRemoved, none => o

def Observer.replay (o : Observer F) (log : List (Emission F)) : Observer F :=
  log.foldl Observer.observe o

/-- The ranges announced as updated. -/
def updatedRanges (log : List (Emission F)) : List (Int × Int) :=
  log.filterMap fun e =>
    match e.signal with
    | .rowsUpdated first last => some (first, last)
    | _ => none

end

/-! ### The call with its signals -/

structure RowUpdateRuns where
  first : Int := -1
  last : Int := -1
  deriving DecidableEq, Repr

namespace RowUpdateRuns
variable {σ : Type}

/-- `send` is given the run that ends, and the state it acts on. -/
def add (u : RowUpdateRuns) (row : Int) (send : Int → Int → σ → σ) (t : σ) : RowUpdateRuns × σ :=
  if u.first < 0 then (⟨row, row⟩, t)
  else if row = u.last + 1 then ({ u with last := row }, t)
  else (⟨row, row⟩, send u.first u.last t)

def flush (u : RowUpdateRuns) (send : Int → Int → σ → σ) (t : σ) : σ :=
  if u.first < 0 then t else send u.first u.last t

/-- The run not sent yet. -/
def pending (u : RowUpdateRuns) : List (Int × Int) :=
  if u.first < 0 then [] else [(u.first, u.last)]

end RowUpdateRuns

namespace Aggregator
variable {F : Type} [Double F]

omit [Double F] in
def sendUpdated (first last : Int) (t : Emitting F) : Emitting F :=
  t.emit (.rowsUpdated first last)

/-- One turn of the loop over the existing rows. -/
def updateAt (s : Aggregator F) (nowMs : Int) (incoming : Hash QString Connection)
    (st : RowUpdateRuns × Emitting F) (i : Nat) : RowUpdateRuns × Emitting F :=
  let (updatedRows, t) := st
  match t.rows[i]? with
  | none => st
  | some r =>
      match incoming.lookup r.key with
      | some c =>
          updatedRows.add i sendUpdated { t with rows := t.rows.set i (s.refreshRow nowMs r c) }
      | none =>
          if r.stale then st
          else updatedRows.add i sendUpdated { t with rows := t.rows.set i (staleRow r) }

omit [Double F] in
/-- One turn of the loop that prunes, from the back. -/
def pruneAt (s : Aggregator F) (nowMs : Int) (t : Emitting F) (i : Nat) : Emitting F :=
  match t.rows[i]? with
  | none => t
  | some r =>
      if s.pruned nowMs r then
        let t := t.emit (.rowsAboutToBeRemoved i i)
        Emitting.emit { t with rows := t.rows.eraseIdx i } .rowsRemoved
      else t

/-- The rows of new flows. -/
def insertNew (nowMs : Int) (additions : List Connection) (t : Emitting F) : Emitting F :=
  if additions.isEmpty then t
  else
    let firstNew : Int := t.rows.length
    let t := t.emit (.rowsAboutToBeInserted firstNew (firstNew + additions.length - 1))
    Emitting.emit { t with rows := t.rows ++ additions.map (newRow nowMs) } .rowsInserted

/-- What `updateConnections` does to the rows and emits on the way. -/
def emitting (s : Aggregator F) (nowMs : Int) (conns : List Connection) : Emitting F :=
  let incoming := s.incoming nowMs conns
  let st := (List.range s.rows.length).foldl (s.updateAt nowMs incoming) ({}, { rows := s.rows })
  let t := st.1.flush sendUpdated st.2
  let t := (List.range t.rows.length).reverse.foldl (s.pruneAt nowMs) t
  insertNew nowMs (additions incoming (indexRows t.rows)) t

/-- A row the call refreshes, or finds missing for the first time. -/
def Touched (incoming : Hash QString Connection) (r : Row F) : Prop :=
  r.key ∈ incoming ∨ r.stale = false

/-! ### Updated rows -/

theorem updateRow_of_not_touched {s : Aggregator F} {nowMs : Int}
    {incoming : Hash QString Connection} {r : Row F} (h : ¬Touched incoming r) :
    s.updateRow nowMs incoming r = r := by
  simp only [Touched, not_or, Bool.not_eq_false] at h
  rw [updateRow, AList.lookup_eq_none.mpr h.1, h.2]
  rfl

/-- **What one turn of the update loop does** to the row it looks at. -/
theorem updateAt_eq (s : Aggregator F) (nowMs : Int) (incoming : Hash QString Connection)
    (u : RowUpdateRuns) {t : Emitting F} {i : Nat} {r : Row F} (hr : t.rows[i]? = some r) :
    (Touched incoming r ∧ s.updateAt nowMs incoming (u, t) i =
      u.add i sendUpdated { t with rows := t.rows.set i (s.updateRow nowMs incoming r) }) ∨
    (¬Touched incoming r ∧ s.updateAt nowMs incoming (u, t) i = (u, t)) := by
  simp only [updateAt, hr, updateRow]
  cases hk : incoming.lookup r.key with
  | some c => exact .inl ⟨.inl (Hash.mem_of_lookup hk), rfl⟩
  | none =>
      cases hstale : r.stale with
      | false => exact .inl ⟨.inr hstale, by simp⟩
      | true =>
          refine .inr ⟨?_, by simp⟩
          rintro (hmem | hlive)
          · exact AList.lookup_eq_none.mp hk hmem
          · rw [hstale] at hlive
            cases hlive

/-- The observer has the rows but for the run that has not been sent. -/
def SyncedBut (u : RowUpdateRuns) (o rows : List (Row F)) : Prop :=
  ∀ j : Nat, ¬(u.first ≤ j ∧ j ≤ u.last) → o[j]? = rows[j]?

/-- The update loop before it looks at row `i`, and what the observer `o` has made of it. -/
structure Updating (s : Aggregator F) (nowMs : Int) (incoming : Hash QString Connection)
    (o : Observer F) (i : Nat) (u : RowUpdateRuns) (t : Emitting F) : Prop where
  rows : t.rows = (s.rows.take i).map (s.updateRow nowMs incoming) ++ s.rows.drop i
  idle : u.first < 0 → u = {} ∧ t.log = []
  covers : Covers i (fun j => ∀ r ∈ s.rows[j]?, Touched incoming r)
    (updatedRanges t.log ++ u.pending)
  length : (o.replay t.log).rows.length = s.rows.length
  synced : SyncedBut u (o.replay t.log).rows t.rows

omit [Double F] in
theorem replay_concat (o : Observer F) (log : List (Emission F)) (e : Emission F) :
    o.replay (log ++ [e]) = (o.replay log).observe e := by
  simp [Observer.replay]

omit [Double F] in
/-- Copying a range of rows. -/
theorem observe_rowsUpdated {o : Observer F} {rows : List (Row F)}
    (h : o.rows.length = rows.length) (first last : Int) (j : Nat) :
    (o.observe ⟨.rowsUpdated first last, rows⟩).rows[j]? =
      if first ≤ j ∧ j ≤ last then rows[j]? else o.rows[j]? := by
  simp only [Observer.observe, List.getElem?_mapIdx]
  split
  · by_cases hj : j < rows.length
    · simp [h, hj]
    · simp [h, hj]
  · simp

section
variable {s : Aggregator F} {nowMs : Int} {incoming : Hash QString Connection} {o : Observer F}
  {i : Nat} {u : RowUpdateRuns} {t : Emitting F} {r : Row F}

theorem Updating.getElem? (h : Updating s nowMs incoming o i u t) (hr : s.rows[i]? = some r) :
    t.rows[i]? = some r := by
  have hi : i < s.rows.length := (List.getElem?_eq_some_iff.mp hr).1
  rw [h.rows, List.getElem?_append_right (by simp)]
  simp [hi.le, hr]

/-- The rows after the turn at row `i`. -/
theorem Updating.rows_set (h : Updating s nowMs incoming o i u t) (hr : s.rows[i]? = some r) :
    t.rows.set i (s.updateRow nowMs incoming r) =
      (s.rows.take (i + 1)).map (s.updateRow nowMs incoming) ++ s.rows.drop (i + 1) := by
  obtain ⟨hi, hget⟩ := List.getElem?_eq_some_iff.mp hr
  have hlen : ((s.rows.take i).map (s.updateRow nowMs incoming)).length = i := by simp [hi.le]
  rw [h.rows, List.drop_eq_getElem_cons hi, hget, List.set_append_right _ _ hlen.le, hlen,
    Nat.sub_self, List.set_cons_zero, List.take_add_one, hr]
  simp

/-- The observer misses no more than it did and row `i`. -/
theorem Updating.synced_set (h : Updating s nowMs incoming o i u t) (row : Row F) {j : Nat}
    (hji : j ≠ i) (hout : ¬(u.first ≤ j ∧ j ≤ u.last)) :
    (o.replay t.log).rows[j]? = (t.rows.set i row)[j]? := by
  rw [List.getElem?_set_ne (Ne.symm hji)]
  exact h.synced j hout

/-- The first row to announce. -/
theorem Updating.first (h : Updating s nowMs incoming o i u t) (hr : s.rows[i]? = some r)
    (htouched : ∀ r' ∈ s.rows[i]?, Touched incoming r') (hidle : u.first < 0) :
    Updating s nowMs incoming o (i + 1) ⟨i, i⟩
      { t with rows := t.rows.set i (s.updateRow nowMs incoming r) } := by
  obtain ⟨rfl, hlog⟩ := h.idle hidle
  have hcov := h.covers
  simp only [hlog, RowUpdateRuns.pending] at hcov
  have hpos : ¬(i : Int) < 0 := by omega
  refine ⟨h.rows_set hr, fun hneg => absurd hneg hpos, ?_, h.length, fun j hj => ?_⟩
  · simpa [hlog, updatedRanges, RowUpdateRuns.pending, hpos] using hcov.start htouched
  · have hji : j ≠ i := by rintro rfl; exact hj ⟨le_rfl, le_rfl⟩
    exact h.synced_set _ hji (by simp; omega)

/-- The run goes on. -/
theorem Updating.next (h : Updating s nowMs incoming o i u t) (hr : s.rows[i]? = some r)
    (htouched : ∀ r' ∈ s.rows[i]?, Touched incoming r') (hrun : ¬u.first < 0)
    (hnext : (i : Int) = u.last + 1) :
    Updating s nowMs incoming o (i + 1) { u with last := i }
      { t with rows := t.rows.set i (s.updateRow nowMs incoming r) } := by
  have hcov := h.covers
  rw [RowUpdateRuns.pending, if_neg hrun] at hcov
  refine ⟨h.rows_set hr, fun hneg => absurd hneg hrun, ?_, h.length, fun j hj => ?_⟩
  · have hgrown := hcov.grow hnext.symm htouched
    simpa [RowUpdateRuns.pending, hrun] using hgrown
  · have hvalid := hcov.valid (u.first, u.last) (by simp)
    dsimp only at hj hvalid
    exact h.synced_set _ (by omega) (by omega)

/-- A gap: the run is sent, and the rows it announces are as they will stay. -/
theorem Updating.gap (h : Updating s nowMs incoming o i u t) (hr : s.rows[i]? = some r)
    (htouched : ∀ r' ∈ s.rows[i]?, Touched incoming r') (hrun : ¬u.first < 0)
    (hgap : ¬(i : Int) = u.last + 1) :
    Updating s nowMs incoming o (i + 1) ⟨i, i⟩
      (sendUpdated u.first u.last { t with rows := t.rows.set i (s.updateRow nowMs incoming r) }) := by
  have hcov := h.covers
  rw [RowUpdateRuns.pending, if_neg hrun] at hcov
  have hpos : ¬(i : Int) < 0 := by omega
  have hlen : (o.replay t.log).rows.length = (t.rows.set i (s.updateRow nowMs incoming r)).length := by
    have hi : i < s.rows.length := (List.getElem?_eq_some_iff.mp hr).1
    rw [h.length, h.rows_set hr]
    simp
    omega
  refine ⟨h.rows_set hr, fun hneg => absurd hneg hpos, ?_, ?_, fun j hj => ?_⟩
  · have hjumped := hcov.jump (fun he => hgap he.symm) htouched
    simpa [sendUpdated, Emitting.emit, updatedRanges, RowUpdateRuns.pending, hpos] using hjumped
  · simp only [sendUpdated, Emitting.emit, replay_concat]
    simp [Observer.observe, h.length]
  · dsimp only at hj
    simp only [sendUpdated, Emitting.emit, replay_concat]
    rw [observe_rowsUpdated hlen]
    split
    · rfl
    · rename_i hout
      exact h.synced_set _ (by omega) hout

/-- A row to announce, whatever the run so far. -/
theorem Updating.add (h : Updating s nowMs incoming o i u t) (hr : s.rows[i]? = some r)
    (ht : Touched incoming r) :
    let next := u.add i sendUpdated { t with rows := t.rows.set i (s.updateRow nowMs incoming r) }
    Updating s nowMs incoming o (i + 1) next.1 next.2 := by
  have htouched : ∀ r' ∈ s.rows[i]?, Touched incoming r' := by
    intro r' hr'
    rw [hr] at hr'
    cases hr'
    exact ht
  unfold RowUpdateRuns.add
  split
  · rename_i hidle
    exact h.first hr htouched hidle
  rename_i hrun
  split
  · rename_i hnext
    exact h.next hr htouched hrun hnext
  · rename_i hgap
    exact h.gap hr htouched hrun hgap

theorem Updating.step {st : RowUpdateRuns × Emitting F} (h : Updating s nowMs incoming o i st.1 st.2)
    (hi : i < s.rows.length) :
    Updating s nowMs incoming o (i + 1) (s.updateAt nowMs incoming st i).1
      (s.updateAt nowMs incoming st i).2 := by
  obtain ⟨u, t⟩ := st
  have hr : s.rows[i]? = some s.rows[i] := List.getElem?_eq_getElem hi
  rcases updateAt_eq s nowMs incoming u (h.getElem? hr) with ⟨ht, heq⟩ | ⟨ht, heq⟩
  · rw [heq]
    exact h.add hr ht
  · have hset := h.rows_set hr
    obtain ⟨hlt, hget⟩ := List.getElem?_eq_some_iff.mp (h.getElem? hr)
    rw [updateRow_of_not_touched ht, ← hget, List.set_getElem_self hlt] at hset
    rw [heq]
    exact ⟨hset, h.idle, h.covers.skip fun hall => ht (hall _ hr), h.length, h.synced⟩

end

/-- **The update loop**: the invariant holds before every row. -/
theorem updating_foldl (s : Aggregator F) (nowMs : Int) (incoming : Hash QString Connection)
    {o : Observer F} (ho : o.rows = s.rows) {n : Nat} (hn : n ≤ s.rows.length) :
    let st := (List.range n).foldl (s.updateAt nowMs incoming) ({}, { rows := s.rows })
    Updating s nowMs incoming o n st.1 st.2 := by
  induction n with
  | zero =>
      refine ⟨by simp, fun _ => ⟨rfl, rfl⟩, .zero, congrArg List.length ho, fun j _ => ?_⟩
      exact congrArg (·[j]?) ho
  | succ n ih =>
      rw [List.range_succ, List.foldl_append]
      exact (ih (by omega)).step hn

/-- The rows after the update loop, what was announced, and the observer. -/
theorem Updating.flush {s : Aggregator F} {nowMs : Int} {incoming : Hash QString Connection}
    {o : Observer F} {u : RowUpdateRuns} {t : Emitting F}
    (h : Updating s nowMs incoming o s.rows.length u t) :
    (u.flush sendUpdated t).rows = s.rows.map (s.updateRow nowMs incoming) ∧
      Covers s.rows.length (fun j => ∀ r ∈ s.rows[j]?, Touched incoming r)
        (updatedRanges (u.flush sendUpdated t).log) ∧
      (o.replay (u.flush sendUpdated t).log).rows =
        (u.flush sendUpdated t).rows := by
  have hrows : t.rows = s.rows.map (s.updateRow nowMs incoming) := by simpa using h.rows
  have hcov := h.covers
  rw [RowUpdateRuns.flush, RowUpdateRuns.pending] at *
  split
  · rename_i hidle
    obtain ⟨rfl, hlog⟩ := h.idle hidle
    refine ⟨hrows, by simpa using hcov, List.ext_getElem? fun j => h.synced j ?_⟩
    simp
    omega
  · rename_i hrun
    rw [if_neg hrun] at hcov
    refine ⟨hrows, ?_, List.ext_getElem? fun j => ?_⟩
    · simpa [sendUpdated, Emitting.emit, updatedRanges] using hcov
    · have hlen : (o.replay t.log).rows.length = t.rows.length := by
        rw [h.length, hrows, List.length_map]
      simp only [sendUpdated, Emitting.emit, replay_concat]
      rw [observe_rowsUpdated hlen]
      split
      · rfl
      · rename_i hout
        exact h.synced j hout

/-! ### Removed and inserted rows -/

/-- An observer in the middle of a call: it has the rows, and no `rowsUpdated` is to come. -/
structure Synced (o : Observer F) (ranges : List (Int × Int)) (t : Emitting F) : Prop where
  rows : (o.replay t.log).rows = t.rows
  ranges : updatedRanges t.log = ranges

omit [Double F] in
theorem Synced.prune {s : Aggregator F} {nowMs : Int} {o : Observer F} {ranges : List (Int × Int)}
    {t : Emitting F} (h : Synced o ranges t) (i : Nat) :
    Synced o ranges (s.pruneAt nowMs t i) := by
  unfold pruneAt
  split
  · exact h
  split
  · refine ⟨?_, ?_⟩
    · simp only [Emitting.emit, replay_concat, Observer.observe, h.rows, Int.toNat_natCast]
      rw [List.eraseIdx_eq_take_drop_succ]
      rfl
    · rw [← h.ranges]
      simp [Emitting.emit, updatedRanges]
  · exact h

omit [Double F] in
/-- Pruning from the back leaves the rows that are not pruned. -/
theorem rows_prune (s : Aggregator F) (nowMs : Int) (t : Emitting F) {n : Nat}
    (hn : n ≤ t.rows.length) :
    ((List.range n).reverse.foldl (s.pruneAt nowMs) t).rows =
      (t.rows.take n).filter (fun r => !s.pruned nowMs r) ++ t.rows.drop n := by
  induction n generalizing t with
  | zero => simp
  | succ n ih =>
      have hlt : n < t.rows.length := hn
      have hget : t.rows[n]? = some t.rows[n] := List.getElem?_eq_getElem hlt
      rw [List.range_succ, List.reverse_append, List.reverse_singleton, List.singleton_append,
        List.foldl_cons, List.take_add_one, hget, Option.toList_some, List.filter_append]
      cases hp : s.pruned nowMs t.rows[n] with
      | true =>
          have hstep : (s.pruneAt nowMs t n).rows = t.rows.eraseIdx n := by
            simp [pruneAt, hget, hp, Emitting.emit]
          rw [ih _ (by rw [hstep, List.length_eraseIdx_of_lt hlt]; omega), hstep,
            List.take_eraseIdx_eq_take_of_le _ _ _ le_rfl, List.eraseIdx_eq_take_drop_succ]
          simp [hp, hlt.le]
      | false =>
          have hstep : s.pruneAt nowMs t n = t := by simp [pruneAt, hget, hp]
          rw [hstep, ih t hlt.le, List.drop_eq_getElem_cons hlt]
          simp [hp]

theorem Synced.insert {o : Observer F} {ranges : List (Int × Int)} {t : Emitting F}
    (h : Synced o ranges t) (nowMs : Int) (additions : List Connection) :
    Synced o ranges (insertNew nowMs additions t) := by
  unfold insertNew
  split
  · exact h
  · refine ⟨?_, ?_⟩
    · simp only [Emitting.emit, replay_concat, Observer.observe, h.rows, Int.toNat_natCast]
      simp
    · rw [← h.ranges]
      simp [Emitting.emit, updatedRanges]

theorem rows_insertNew (nowMs : Int) (additions : List Connection) (t : Emitting F) :
    (insertNew nowMs additions t).rows = t.rows ++ additions.map (newRow nowMs) := by
  unfold insertNew
  split
  · rename_i h
    simp [List.isEmpty_iff.mp h]
  · rfl

/-! ### Whole calls -/

/-- **What a call emits**, to an observer that has the rows. -/
theorem emitting_spec (s : Aggregator F) (nowMs : Int) (conns : List Connection) {o : Observer F}
    (ho : o.rows = s.rows) :
    (s.emitting nowMs conns).rows = (s.updateConnections nowMs conns).rows ∧
      Covers s.rows.length (fun j => ∀ r ∈ s.rows[j]?, Touched (s.incoming nowMs conns) r)
        (updatedRanges (s.emitting nowMs conns).log) ∧
      (o.replay (s.emitting nowMs conns).log).rows = (s.emitting nowMs conns).rows := by
  have hloop := updating_foldl s nowMs (s.incoming nowMs conns) ho le_rfl
  unfold emitting
  dsimp only at hloop ⊢
  generalize (List.range s.rows.length).foldl (s.updateAt nowMs (s.incoming nowMs conns))
    ({}, { rows := s.rows }) = st at hloop ⊢
  obtain ⟨hrows, hcov, hsync⟩ := hloop.flush
  generalize st.1.flush sendUpdated st.2 = t at hrows hcov hsync ⊢
  -- Pruning and inserting emit no `rowsUpdated` and keep the observer in step.
  have hpruned : Synced o (updatedRanges t.log)
      ((List.range t.rows.length).reverse.foldl (s.pruneAt nowMs) t) :=
    foldl_invariant (fun t i h => h.prune i) ⟨hsync, rfl⟩ _
  have hsurvivors : ((List.range t.rows.length).reverse.foldl (s.pruneAt nowMs) t).rows =
      s.survivors nowMs (s.incoming nowMs conns) := by
    rw [rows_prune s nowMs t le_rfl, List.take_length, List.drop_length, List.append_nil, hrows]
    rfl
  have hdone := hpruned.insert nowMs
    (additions (s.incoming nowMs conns) (indexRows (s.survivors nowMs (s.incoming nowMs conns))))
  rw [hsurvivors]
  refine ⟨?_, ?_, hdone.rows⟩
  · rw [rows_insertNew, rows_updateConnections, hsurvivors]
    rfl
  · rwa [hdone.ranges]

/-- The aggregator and an observer of it after a call. -/
def watchCall (w : Aggregator F × Observer F) (call : Int × List Connection) :
    Aggregator F × Observer F :=
  (w.1.updateConnections call.1 call.2, w.2.replay (w.1.emitting call.1 call.2).log)

/-- The two after a sequence of calls, the observer having started with the aggregator's rows. -/
def watch (s : Aggregator F) (calls : List (Int × List Connection)) : Aggregator F × Observer F :=
  calls.foldl watchCall (s, { rows := s.rows })

/-- **Signals can be replayed**: an observer has the aggregator's rows after every call of any
sequence; and in the next call the ranges announced as updated are valid, ascending and apart, and hold
the rows that were refreshed or became stale and no others. -/
theorem signals_replayable (s : Aggregator F) (calls : List (Int × List Connection)) :
    (watch s calls).2.rows = (watch s calls).1.rows ∧
      ∀ nowMs conns, let s' := (watch s calls).1
        (s'.emitting nowMs conns).rows = (s'.updateConnections nowMs conns).rows ∧
        Covers s'.rows.length (fun i => ∀ r ∈ s'.rows[i]?, Touched (s'.incoming nowMs conns) r)
          (updatedRanges (s'.emitting nowMs conns).log) := by
  constructor
  · refine foldl_invariant (I := fun w : Aggregator F × Observer F => w.2.rows = w.1.rows)
      (fun w call hw => ?_) rfl calls
    obtain ⟨hrows, -, hsync⟩ := emitting_spec w.1 call.1 call.2 hw
    exact hsync.trans hrows
  · intro nowMs conns s'
    obtain ⟨hrows, hcov, -⟩ := emitting_spec s' nowMs conns (o := { rows := s'.rows }) rfl
    exact ⟨hrows, hcov⟩

end Aggregator

end Qiftop.Aggregate
