import Qiftop.Util.HandoffEnds

/-!
# Util — read boundaries and the hand-over protocol

The protocol is about lines, and what the server does on them is a small machine of three states
(`talk`).  The server sees reads.  While no read makes the buffer longer than a cap, a stream has the
effects of its lines however it is cut (`drive_shown`).  But the caps are tested on the whole buffer,
and the one that applies is that of the state before the read: a greeting that arrives together with
more than 1024 bytes in all is refused, and accepted when it arrives on its own.

The streams here are those of one accepted peer, without commands of the parent in between.
-/

namespace Qiftop.Util
open Qt Lib HandoffServer

variable {Stats : Type}

/-! ### Lines of a stream -/

/-- Induction over the lines of a stream. -/
@[elab_as_elim]
theorem line_induction {motive : QByteArray → Prop}
    (line : ∀ line rest, lf ∉ line → motive rest → motive (line ++ lf :: rest))
    (unfinished : ∀ buf, lf ∉ buf → motive buf) (buf : QByteArray) : motive buf := by
  induction hn : buf.length using Nat.strong_induction_on generalizing buf with
  | _ n ih =>
      rcases takeLine_cases buf with ⟨first, rest, -, rfl, hlf⟩ | ⟨-, hlf⟩
      · refine line first rest hlf (ih rest.length ?_ rest rfl)
        rw [← hn, List.length_append, List.length_cons]
        omega
      · exact unfinished buf hlf

/-- The complete lines of a stream, and what follows the last of them. -/
def splitLines : QByteArray → List QByteArray × QByteArray
  | [] => ([], [])
  | b :: buf =>
      if b = lf then ([] :: (splitLines buf).1, (splitLines buf).2)
      else match splitLines buf with
        | ([], rest) => ([], b :: rest)
        | (line :: lines, rest) => ((b :: line) :: lines, rest)

theorem splitLines_line {line : QByteArray} (h : lf ∉ line) (rest : QByteArray) :
    splitLines (line ++ lf :: rest) = (line :: (splitLines rest).1, (splitLines rest).2) := by
  induction line with
  | nil => rfl
  | cons b line ih =>
      simp only [List.mem_cons, not_or] at h
      rw [List.cons_append, splitLines, if_neg (Ne.symm h.1), ih h.2]

theorem splitLines_of_notMem {buf : QByteArray} (h : lf ∉ buf) : splitLines buf = ([], buf) := by
  induction buf with
  | nil => rfl
  | cons b buf ih =>
      simp only [List.mem_cons, not_or] at h
      rw [splitLines, if_neg (Ne.symm h.1), ih h.2]

/-- Cutting a stream: the lines of the first part, then those of what is left and the second. -/
theorem splitLines_append (a b : QByteArray) :
    splitLines (a ++ b) = ((splitLines a).1 ++ (splitLines ((splitLines a).2 ++ b)).1,
      (splitLines ((splitLines a).2 ++ b)).2) := by
  induction a using line_induction with
  | line first rest hlf ih =>
      rw [List.append_assoc, List.cons_append, splitLines_line hlf, splitLines_line hlf, ih]
      rfl
  | unfinished a hlf =>
      rw [splitLines_of_notMem hlf]
      rfl

theorem length_splitLines_le (buf : QByteArray) : (splitLines buf).2.length ≤ buf.length := by
  induction buf using line_induction with
  | line first rest hlf ih =>
      rw [splitLines_line hlf, List.length_append, List.length_cons]
      dsimp only
      omega
  | unfinished buf hlf => rw [splitLines_of_notMem hlf]

theorem notMem_splitLines (buf : QByteArray) : lf ∉ (splitLines buf).2 := by
  induction buf using line_induction with
  | line first rest hlf ih =>
      rw [splitLines_line hlf]
      exact ih
  | unfinished buf hlf =>
      rw [splitLines_of_notMem hlf]
      exact hlf

/-! ### The protocol on lines -/

/-- Where a peer stands. -/
inductive Standing where
  | waiting | child | gone
  deriving DecidableEq, Repr

/-- The protocol: one line of the peer `c`. -/
def talk (nonce : QByteArray) (decodeStats : QByteArray → Stats) (c : ℕ) :
    Standing → QByteArray → Standing × List (HandoffOutput Stats)
  | .waiting, line =>
      if isHello nonce line then (.child, [.authenticated c]) else (.gone, [.childDisconnected c])
  | .child, line =>
      match signalOf decodeStats line with
      | some sig => (.child, [.signal c sig])
      | none =>
          if verbOf line = ascii "BYE" then (.gone, [.bye c, .childDisconnected c]) else (.child, [])
  | .gone, _ => (.gone, [])

theorem run_talk_gone (nonce : QByteArray) (decodeStats : QByteArray → Stats) (c : ℕ)
    (lines : List QByteArray) : run (talk nonce decodeStats c) .gone lines = (.gone, []) := by
  induction lines with
  | nil => rfl
  | cons line lines ih => simp [run, talk, ih]

/-- How the server represents where its peer stands. -/
def Stands (nonce : QByteArray) (c : ℕ) (t : Standing) (s : HandoffServer) : Prop :=
  s.nonce = nonce ∧ s.unwritten = false ∧ s.closing = false ∧
    match t with
    | .waiting => s.client = some c ∧ s.authenticated = false
    | .child => s.client = some c ∧ s.authenticated = true
    | .gone => s.client = none ∧ s.readBuf = []

/-- Where a peer stands that has a connection does not depend on the buffer. -/
theorem Stands.withBuf {nonce : QByteArray} {c : ℕ} {t : Standing} {s : HandoffServer}
    (h : Stands nonce c t s) (ht : t ≠ .gone) (buf : QByteArray) :
    Stands nonce c t { s with readBuf := buf } := by
  cases t with
  | waiting => exact h
  | child => exact h
  | gone => exact absurd rfl ht

/-- Slots that send nothing. -/
def quiet : Reactions := fun _ => []

/-! ### The server follows the protocol -/

section Follow
variable {nonce : QByteArray} {decodeStats : QByteArray → Stats} {c : ℕ}

variable (Stats) in
/-- The end of the peer's connection. -/
theorem disconnect_gone {s : HandoffServer} {t : Standing} (h : Stands nonce c t s)
    (ht : t ≠ .gone) :
    s.client = some c ∧ (s.disconnectFromServer c : HandoffServer × List (HandoffOutput Stats)).2 =
        [.childDisconnected c] ∧
      Stands nonce c .gone (s.disconnectFromServer c : HandoffServer × List (HandoffOutput Stats)).1 ∧
      (s.rejectClient c : HandoffServer × List (HandoffOutput Stats)).2 = [.childDisconnected c] ∧
      Stands nonce c .gone (s.rejectClient c : HandoffServer × List (HandoffOutput Stats)).1 := by
  obtain ⟨hn, hw, hcl, hst⟩ := h
  have hc : s.client = some c := by
    cases t with
    | waiting => exact hst.1
    | child => exact hst.1
    | gone => exact absurd rfl ht
  have hd : (s.disconnectFromServer c : HandoffServer × List (HandoffOutput Stats)) =
      s.handleClientDisconnected c := if_neg (by simp [hw])
  have hr : (s.rejectClient c : HandoffServer × List (HandoffOutput Stats)) =
      s.handleClientDisconnected c := by
    simp [rejectClient, hc, hd, handleClientDisconnected]
  rw [hd, hr]
  exact ⟨hc, rfl, ⟨hn, rfl, rfl, rfl, rfl⟩, rfl, ⟨hn, rfl, rfl, rfl, rfl⟩⟩

/-- The empty line says nothing. -/
theorem talk_nil : talk nonce decodeStats c .child [] = (.child, []) := by
  have hverb : verbOf [] ≠ ascii "READY" ∧ verbOf [] ≠ ascii "STATS" ∧ verbOf [] ≠ ascii "PAUSED" ∧
    verbOf [] ≠ ascii "BYE" := by decide
  simp only [talk, signalOf, hverb, if_false]

variable (decodeStats) in
/-- One line of the authenticated peer. -/
theorem dispatch_talk {s : HandoffServer} (h : Stands nonce c .child s) (line : QByteArray) :
    (s.dispatch decodeStats c line []).2 = (talk nonce decodeStats c .child line).2 ∧
      Stands nonce c (talk nonce decodeStats c .child line).1
        (s.dispatch decodeStats c line []).1 ∧
      ((talk nonce decodeStats c .child line).1 ≠ .gone →
        (s.dispatch decodeStats c line []).1.readBuf = s.readBuf) := by
  obtain ⟨hc, hout, hgone, -⟩ := disconnect_gone Stats h (by decide)
  unfold dispatch
  by_cases hl : line = []
  · subst hl
    rw [if_pos rfl, talk_nil]
    exact ⟨rfl, h, fun _ => rfl⟩
  · rw [if_neg hl, talk]
    cases signalOf decodeStats line with
    | some sig => exact ⟨rfl, h, fun _ => rfl⟩
    | none =>
        dsimp only
        split
        · simp only [hc, Option.isSome_some, if_true]
          exact ⟨congrArg (.bye c :: ·) hout, hgone, fun hg => absurd rfl hg⟩
        · exact ⟨rfl, h, fun _ => rfl⟩

variable (decodeStats) in
/-- A peer that is gone has left no lines. -/
theorem handleLines_gone {s : HandoffServer} (h : Stands nonce c .gone s) (fuel k : ℕ) :
    s.handleLines decodeStats c quiet fuel k = (s, []) := by
  cases fuel with
  | zero => rfl
  | succ fuel =>
      rw [handleLines, h.2.2.2.2]
      rfl

variable (decodeStats) in
/-- One round of the loop makes the protocol's step on the first line and goes on with the rest, which
is lost when the peer is gone. -/
theorem handleLines_line (fuel k : ℕ) {s : HandoffServer} {t : Standing} (h : Stands nonce c t s)
    (ht : t ≠ .gone) {line rest : QByteArray} (htake : takeLine s.readBuf = some (line, rest)) :
    ∃ k' s', s.handleLines decodeStats c quiet (fuel + 1) k =
        ((s'.handleLines decodeStats c quiet fuel k').1,
          (talk nonce decodeStats c t line).2 ++ (s'.handleLines decodeStats c quiet fuel k').2) ∧
      Stands nonce c (talk nonce decodeStats c t line).1 s' ∧
      ((talk nonce decodeStats c t line).1 ≠ .gone → s'.readBuf = rest) := by
  rw [handleLines, htake]
  dsimp only
  cases t with
  | waiting =>
      have hn : s.nonce = nonce := h.1
      -- the first line is the greeting, or the last one
      rw [if_pos (by simp [h.2.2.2.2]), talk]
      by_cases hh : isHello s.nonce line = true
      · rw [if_pos hh, if_pos (hn ▸ hh)]
        exact ⟨k, { s with readBuf := rest, authenticated := true }, rfl,
          ⟨h.1, h.2.1, h.2.2.1, h.2.2.2.1, rfl⟩, fun _ => rfl⟩
      · rw [if_neg hh, if_neg (hn ▸ hh), rejectClient_readBuf]
        obtain ⟨-, -, -, hout, hgone⟩ := disconnect_gone Stats h (by decide)
        refine ⟨k, _, ?_, hgone, fun hg => absurd rfl hg⟩
        rw [handleLines_gone decodeStats hgone, List.append_nil]
        exact Prod.ext rfl hout
  | child =>
      rw [if_neg (by simp [h.2.2.2.2])]
      have hchild : Stands nonce c .child { s with readBuf := rest } := h
      obtain ⟨hout, hst, hb⟩ := dispatch_talk decodeStats hchild line
      exact ⟨k + 1, _, by rw [← hout]; rfl, hst, hb⟩
  | gone => exact absurd rfl ht

variable (decodeStats) in
/-- The loop over the lines in the buffer makes the protocol's steps. -/
theorem handleLines_talk (fuel k : ℕ) {s : HandoffServer} {t : Standing} (h : Stands nonce c t s)
    (hfuel : s.readBuf.length ≤ fuel) :
    let r := run (talk nonce decodeStats c) t (splitLines s.readBuf).1
    let r' := s.handleLines decodeStats c quiet fuel k
    r'.2 = r.2 ∧ Stands nonce c r.1 r'.1 ∧
      (r.1 ≠ .gone → r'.1.readBuf = (splitLines s.readBuf).2) := by
  induction fuel generalizing k s t with
  | zero =>
      have hnil : s.readBuf = [] := List.length_eq_zero_iff.mp (Nat.le_zero.mp hfuel)
      rw [hnil]
      exact ⟨rfl, h, fun _ => hnil⟩
  | succ fuel ih =>
      dsimp only
      by_cases ht : t = .gone
      · subst ht
        rw [handleLines_gone decodeStats h, run_talk_gone]
        exact ⟨rfl, h, fun hg => absurd rfl hg⟩
      rcases takeLine_cases s.readBuf with ⟨line, rest, htake, hbuf, hlf⟩ | ⟨htake, hlf⟩
      · obtain ⟨k', s', hround, hst, hb⟩ := handleLines_line decodeStats fuel k h ht htake
        rw [hround, hbuf, splitLines_line hlf, run]
        by_cases hg : (talk nonce decodeStats c t line).1 = .gone
        · -- the lines after a farewell or a refused greeting are lost, here and in the protocol
          rw [hg] at hst
          rw [hg, run_talk_gone, handleLines_gone decodeStats hst]
          exact ⟨rfl, hst, fun h => absurd rfl h⟩
        · obtain ⟨hout', hst', hb'⟩ := ih k' hst (by
            rw [hb hg]
            rw [hbuf, List.length_append, List.length_cons] at hfuel
            omega)
          rw [hb hg] at hout' hst' hb'
          exact ⟨congrArg (_ ++ ·) hout', hst', hb'⟩
      · have hnone : s.handleLines decodeStats c quiet (fuel + 1) k = (s, []) := by
          rw [handleLines, htake]
        rw [hnone, splitLines_of_notMem hlf]
        exact ⟨rfl, h, fun _ => rfl⟩

/-- The outputs but for the reads. -/
def shown (outs : List (HandoffOutput Stats)) : List (HandoffOutput Stats) :=
  outs.filter fun
    | .read _ _ => false
    | _ => true

theorem shown_append (outs outs' : List (HandoffOutput Stats)) :
    shown (outs ++ outs') = shown outs ++ shown outs' :=
  List.filter_append _ _

/-- The protocol reads nothing. -/
theorem shown_run_talk (t : Standing) (lines : List QByteArray) :
    shown (run (talk nonce decodeStats c) t lines).2 = (run (talk nonce decodeStats c) t lines).2 := by
  induction lines generalizing t with
  | nil => rfl
  | cons line lines ih =>
      rw [run, shown_append, ih]
      congr 1
      cases t with
      | waiting =>
          rw [talk]
          split <;> rfl
      | child =>
          rw [talk]
          cases signalOf decodeStats line with
          | some sig => rfl
          | none =>
              dsimp only
              split <;> rfl
      | gone => rfl

variable (decodeStats) in
/-- A read that keeps the buffer within the smaller cap. -/
theorem deliver_talk {s : HandoffServer} {t : Standing} (h : Stands nonce c t s) (bytes : QByteArray)
    (hlen : (s.readBuf ++ bytes).length ≤ kPreAuthCap) :
    let r := run (talk nonce decodeStats c) t (splitLines (s.readBuf ++ bytes)).1
    let r' := s.step decodeStats (.deliver c bytes quiet)
    shown r'.2 = r.2 ∧ Stands nonce c r.1 r'.1 ∧
      (r.1 ≠ .gone → r'.1.readBuf = (splitLines (s.readBuf ++ bytes)).2) := by
  intro r r'
  have hpost : kPreAuthCap ≤ kPostAuthCap := by decide
  cases t with
  | gone =>
      have hr' : r' = (s, []) := if_neg (by simp [h.2.2.2.1])
      have hr : r = (.gone, []) := run_talk_gone nonce decodeStats c _
      rw [hr, hr']
      exact ⟨rfl, h, fun hg => absurd rfl hg⟩
  | waiting | child =>
      have hc : s.client = some c ∧ (!s.closing) = true := ⟨h.2.2.2.1, by simp [h.2.2.1]⟩
      have hr' : r' = s.handleReadyRead decodeStats c bytes quiet := if_pos hc
      rw [handleReadyRead] at hr'
      dsimp only at hr'
      rw [if_neg (by omega), if_neg (by omega)] at hr'
      have hbuf := h.withBuf (by decide) (s.readBuf ++ bytes)
      obtain ⟨hout, hst, hb⟩ :=
        handleLines_talk decodeStats (s.readBuf ++ bytes).length 0 hbuf le_rfl
      rw [hr']
      refine ⟨?_, hst, hb⟩
      have hskip : ∀ l : List (HandoffOutput Stats), shown (.read c bytes :: l) = shown l := fun _ => rfl
      rw [hskip, hout]
      exact shown_run_talk _ _

/-- The events of a stream cut into reads. -/
def reads (c : ℕ) (chunks : List QByteArray) : List HandoffEvent :=
  chunks.map fun bytes => .deliver c bytes quiet

/-- The outputs of the first read, then those of the others. -/
theorem drive_cons (s : HandoffServer) (bytes : QByteArray) (chunks : List QByteArray) :
    (run (step decodeStats) s (reads c (bytes :: chunks))).2 =
      (step decodeStats s (.deliver c bytes quiet)).2 ++
        (run (step decodeStats) (step decodeStats s (.deliver c bytes quiet)).1
          (reads c chunks)).2 :=
  rfl

variable (decodeStats) in
/-- **A short stream has the effects of its lines, however it is cut.** -/
theorem drive_shown (chunks : List QByteArray) {s : HandoffServer} {t : Standing}
    (h : Stands nonce c t s) (hlf : lf ∉ s.readBuf)
    (hlen : (s.readBuf ++ chunks.flatten).length ≤ kPreAuthCap) :
    shown (run (step decodeStats) s (reads c chunks)).2 =
      (run (talk nonce decodeStats c) t (splitLines (s.readBuf ++ chunks.flatten)).1).2 := by
  induction chunks generalizing s t with
  | nil =>
      rw [List.flatten_nil, List.append_nil, splitLines_of_notMem hlf]
      rfl
  | cons bytes chunks ih =>
      rw [List.flatten_cons, ← List.append_assoc] at hlen ⊢
      have hread : (s.readBuf ++ bytes).length ≤ kPreAuthCap := by
        rw [List.length_append] at hlen
        omega
      obtain ⟨hout, hst, hb⟩ := deliver_talk decodeStats h bytes hread
      rw [drive_cons, shown_append, hout, splitLines_append (s.readBuf ++ bytes), run_append]
      congr 1
      -- the induction goes on with the unfinished line as the buffer, unless the peer is gone
      by_cases hg : (run (talk nonce decodeStats c) t (splitLines (s.readBuf ++ bytes)).1).1 = .gone
      · rw [hg] at hst
        have hempty := hst.2.2.2.2
        rw [ih hst (by rw [hempty]; exact nofun) (by
          rw [hempty, List.nil_append]
          rw [List.length_append] at hlen
          omega), hg, run_talk_gone, run_talk_gone]
      · have hrest := hb hg
        have hle := length_splitLines_le (s.readBuf ++ bytes)
        rw [ih hst (by rw [hrest]; exact notMem_splitLines _) (by
          rw [hrest, List.length_append]
          rw [List.length_append] at hlen
          omega), hrest]

end Follow

/-! ### Outcomes of a stream -/

/-- What becomes of a peer's authentication. -/
inductive AuthOutcome where
  | pending | accepted | rejected
  deriving DecidableEq, Repr

/-- The first of the peer's outputs that decides its authentication. -/
def authOutcome (outs : List (HandoffOutput Stats)) : AuthOutcome :=
  (outs.findSome? fun
    | .authenticated _ => some .accepted
    | .childDisconnected _ => some .rejected
    | _ => none).getD .pending

/-- The signals and farewells, `none` for a farewell. -/
def effects (outs : List (HandoffOutput Stats)) : List (Option (Signal Stats)) :=
  outs.filterMap fun
    | .signal _ sig => some (some sig)
    | .bye _ => some none
    | _ => none

theorem authOutcome_shown (outs : List (HandoffOutput Stats)) :
    authOutcome (shown outs) = authOutcome outs := by
  unfold authOutcome shown
  congr 1
  induction outs with
  | nil => rfl
  | cons o outs ih => cases o <;> simp_all

theorem effects_shown (outs : List (HandoffOutput Stats)) : effects (shown outs) = effects outs := by
  unfold effects shown
  induction outs with
  | nil => rfl
  | cons o outs ih => cases o <;> simp_all

/-- The outputs of a server that accepts a peer of uid `uid` and reads `chunks` from it. -/
def outputsOf (nonce : QByteArray) (uid : UInt32) (decodeStats : QByteArray → Stats)
    (chunks : List QByteArray) : List (HandoffOutput Stats) :=
  (run (step decodeStats) (.listening nonce uid)
    (.connect (some uid) [] quiet :: reads 0 chunks)).2

/-- However the stream is cut into reads, the authentication has the same outcome and the same
effects follow. -/
def SplitIndependent (nonce : QByteArray) (uid : UInt32) (decodeStats : QByteArray → Stats)
    (stream : QByteArray) : Prop :=
  ∀ chunks chunks', chunks.flatten = stream → chunks'.flatten = stream →
    authOutcome (outputsOf nonce uid decodeStats chunks) =
        authOutcome (outputsOf nonce uid decodeStats chunks') ∧
      effects (outputsOf nonce uid decodeStats chunks) =
        effects (outputsOf nonce uid decodeStats chunks')

/-- The first line of the stream, complete or not, has at most 1024 bytes, every later one at most a
mebibyte. -/
def LineBounds (stream : QByteArray) : Prop :=
  let lines := (splitLines stream).1 ++ [(splitLines stream).2]
  (∀ line ∈ lines.head?, line.length ≤ kPreAuthCap) ∧ ∀ line ∈ lines.tail, line.length ≤ kPostAuthCap

/-- The stream starts with a greeting that fits the buffer with its line feed. -/
def StartsWithHello (nonce stream : QByteArray) : Prop :=
  ∃ hello rest, stream = hello ++ lf :: rest ∧ lf ∉ hello ∧ isHello nonce hello = true ∧
    hello.length < kPreAuthCap

section Outcome
variable {nonce : QByteArray} {decodeStats : QByteArray → Stats} {c : ℕ}

/-- Nothing is read from a peer that is gone. -/
theorem drive_gone (chunks : List QByteArray) {s : HandoffServer} (h : Stands nonce c .gone s) :
    (run (step decodeStats) s (reads c chunks)).2 = [] := by
  induction chunks with
  | nil => rfl
  | cons bytes chunks ih =>
      have hstep : step decodeStats s (.deliver c bytes quiet) = (s, []) :=
        if_neg (by simp [h.2.2.2.1])
      rw [drive_cons, hstep]
      exact ih

variable (decodeStats) in
/-- An unauthenticated peer whose bytes exceed the cap is rejected. -/
theorem deliver_oversized {s : HandoffServer} (h : Stands nonce c .waiting s) {bytes : QByteArray}
    (hlen : kPreAuthCap < (s.readBuf ++ bytes).length) :
    (step decodeStats s (.deliver c bytes quiet)).2 = [.read c bytes, .childDisconnected c] ∧
      Stands nonce c .gone (step decodeStats s (.deliver c bytes quiet)).1 := by
  obtain ⟨-, -, -, hout, hgone⟩ := disconnect_gone Stats h (by decide)
  have hc : s.client = some c ∧ (!s.closing) = true := ⟨h.2.2.2.1, by simp [h.2.2.1]⟩
  have hstep : step decodeStats s (.deliver c bytes quiet) =
      s.handleReadyRead decodeStats c bytes quiet := if_pos hc
  rw [hstep, handleReadyRead]
  dsimp only
  rw [if_pos ⟨by simp [h.2.2.2.2], hlen⟩, rejectClient_readBuf]
  exact ⟨congrArg (.read c bytes :: ·) hout, hgone⟩

/-- The first line of a stream is determined. -/
theorem first_line_unique {line first rest rest' : QByteArray} (hl : lf ∉ line) (hf : lf ∉ first)
    (h : line ++ lf :: rest = first ++ lf :: rest') : line = first := by
  have := takeLine_append hl rest
  rw [h, takeLine_append hf] at this
  exact (Prod.mk.inj (Option.some.inj this)).1.symm

/-- A stream whose first line is no greeting that fits is rejected however it is cut. -/
theorem drive_rejected (chunks : List QByteArray) {s : HandoffServer} (h : Stands nonce c .waiting s)
    (hlf : lf ∉ s.readBuf) {first rest : QByteArray} (hfirst : lf ∉ first)
    (hstream : s.readBuf ++ chunks.flatten = first ++ lf :: rest)
    (hno : ¬ (isHello nonce first = true ∧ first.length < kPreAuthCap)) :
    shown (run (step decodeStats) s (reads c chunks)).2 = [.childDisconnected c] := by
  induction chunks generalizing s with
  | nil =>
      rw [List.flatten_nil, List.append_nil] at hstream
      exact absurd (by rw [hstream]; simp) hlf
  | cons bytes chunks ih =>
      rw [List.flatten_cons, ← List.append_assoc] at hstream
      rw [drive_cons, shown_append]
      by_cases hlen : kPreAuthCap < (s.readBuf ++ bytes).length
      · obtain ⟨hout, hgone⟩ := deliver_oversized decodeStats h hlen
        rw [hout, drive_gone chunks hgone]
        rfl
      · obtain ⟨hout, hst, hb⟩ := deliver_talk decodeStats h bytes (not_lt.mp hlen)
        rw [hout]
        rcases takeLine_cases (s.readBuf ++ bytes) with ⟨line, rest', -, hbuf, hl⟩ | ⟨-, hl⟩
        · -- the first line is complete, short, and no greeting
          rw [hbuf, List.append_assoc, List.cons_append] at hstream
          obtain rfl := first_line_unique hl hfirst hstream
          have hshort : line.length < kPreAuthCap := by
            rw [hbuf, List.length_append, List.length_cons] at hlen
            omega
          have htalk : ∀ lines, run (talk nonce decodeStats c) .waiting (line :: lines) =
              (.gone, [.childDisconnected c]) := by
            intro lines
            rw [run, talk, if_neg fun hh => hno ⟨hh, hshort⟩, run_talk_gone]
            rfl
          rw [hbuf, splitLines_line hl, htalk] at hst ⊢
          rw [drive_gone chunks hst]
          rfl
        · -- the first line is not complete yet: the buffer has grown, nothing else
          rw [splitLines_of_notMem hl] at hst hb ⊢
          have hbuf : (step decodeStats s (.deliver c bytes quiet)).1.readBuf = s.readBuf ++ bytes :=
            hb fun e => by cases e
          rw [← hbuf] at hstream hl
          rw [ih hst hl hstream]
          rfl

end Outcome

/-! ### When the reads do not matter -/

section Splits
variable (nonce : QByteArray) (uid : UInt32) (decodeStats : QByteArray → Stats)

/-- The server once it has accepted its first peer. -/
def accepting : HandoffServer :=
  { HandoffServer.listening nonce uid with client := some 0, nextId := 1 }

theorem stands_accepting : Stands nonce 0 .waiting (accepting nonce uid) :=
  ⟨rfl, rfl, rfl, rfl, rfl⟩

theorem outputsOf_eq (chunks : List QByteArray) :
    outputsOf nonce uid decodeStats chunks =
      .accepted 0 :: (run (step decodeStats) (accepting nonce uid) (reads 0 chunks)).2 := by
  have hconnect : step decodeStats (.listening nonce uid) (.connect (some uid) [] quiet) =
      (accepting nonce uid, [.accepted 0]) := by
    have hallowed : (uid == uid || uid == 0) = true := by simp
    simp only [step, handleNewConnection]
    rw [if_neg (by
      show ¬ (!(uid == uid || uid == 0)) = true
      rw [hallowed]
      decide)]
    rfl
  rw [outputsOf, run, hconnect]
  rfl

/-- The outcome and the effects, from what the peer brings about. -/
theorem outcome_of_shown {chunks : List QByteArray} {outs : List (HandoffOutput Stats)}
    (h : shown (run (step decodeStats) (accepting nonce uid) (reads 0 chunks)).2 = outs) :
    authOutcome (outputsOf nonce uid decodeStats chunks) = authOutcome outs ∧
      effects (outputsOf nonce uid decodeStats chunks) = effects outs := by
  rw [← h, authOutcome_shown, effects_shown, outputsOf_eq]
  exact ⟨rfl, rfl⟩

variable {nonce uid decodeStats} in
/-- If every cut of the stream shows the same outputs, the cuts do not matter. -/
theorem splitIndependent_of_shown {stream : QByteArray} (outs : List (HandoffOutput Stats))
    (h : ∀ chunks : List QByteArray, chunks.flatten = stream →
      shown (run (step decodeStats) (accepting nonce uid) (reads 0 chunks)).2 = outs) :
    SplitIndependent nonce uid decodeStats stream := by
  intro chunks chunks' hs hs'
  obtain ⟨hauth, heff⟩ := outcome_of_shown nonce uid decodeStats (h chunks hs)
  obtain ⟨hauth', heff'⟩ := outcome_of_shown nonce uid decodeStats (h chunks' hs')
  exact ⟨hauth.trans hauth'.symm, heff.trans heff'.symm⟩

theorem splitIndependent_of_short {stream : QByteArray} (h : stream.length ≤ kPreAuthCap) :
    SplitIndependent nonce uid decodeStats stream := by
  refine splitIndependent_of_shown
    (run (talk nonce decodeStats 0) .waiting (splitLines stream).1).2 fun chunks hs => ?_
  subst hs
  exact drive_shown decodeStats chunks (stands_accepting nonce uid) nofun h

theorem splitIndependent_of_rejected {first rest : QByteArray} (hfirst : lf ∉ first)
    (hno : ¬ (isHello nonce first = true ∧ first.length < kPreAuthCap)) :
    SplitIndependent nonce uid decodeStats (first ++ lf :: rest) := by
  refine splitIndependent_of_shown [.childDisconnected 0] fun chunks hs => ?_
  exact drive_rejected chunks (stands_accepting nonce uid) nofun hfirst hs hno

/-- A long stream read at once is refused. -/
theorem authOutcome_at_once {stream : QByteArray} (h : kPreAuthCap < stream.length) :
    authOutcome (outputsOf nonce uid decodeStats [stream]) = .rejected := by
  obtain ⟨hout, -⟩ := deliver_oversized decodeStats (stands_accepting nonce uid) h
  have hshown : shown (run (step decodeStats) (accepting nonce uid) (reads 0 [stream])).2 =
      [.childDisconnected 0] := by
    show shown ((step decodeStats (accepting nonce uid) (.deliver 0 stream quiet)).2 ++ []) = _
    rw [hout]
    rfl
  exact (outcome_of_shown nonce uid decodeStats hshown).1

/-- A greeting read on its own is accepted, whatever follows. -/
theorem authOutcome_greeting_first {hello : QByteArray} (rest : QByteArray) (hlf : lf ∉ hello)
    (hh : isHello nonce hello = true) (hlen : hello.length < kPreAuthCap) :
    authOutcome (outputsOf nonce uid decodeStats [hello ++ [lf], rest]) = .accepted := by
  have hread : ((accepting nonce uid).readBuf ++ (hello ++ [lf])).length ≤ kPreAuthCap := by
    show (hello ++ [lf]).length ≤ kPreAuthCap
    rw [List.length_append, List.length_singleton]
    exact hlen
  obtain ⟨hout, -, -⟩ := deliver_talk decodeStats (stands_accepting nonce uid) (hello ++ [lf]) hread
  have hlines : (splitLines ((accepting nonce uid).readBuf ++ (hello ++ [lf]))).1 = [hello] := by
    show (splitLines (hello ++ [lf])).1 = [hello]
    rw [splitLines_line hlf]
    rfl
  rw [hlines] at hout
  refine (outcome_of_shown nonce uid decodeStats rfl).1.trans ?_
  show authOutcome (shown ((step decodeStats (accepting nonce uid)
    (.deliver 0 (hello ++ [lf]) quiet)).2 ++ _)) = _
  rw [shown_append, hout, run, talk, if_pos hh]
  rfl

/-- **Exactly the short streams, and those that never authenticate, are independent of read
boundaries.** -/
theorem split_independent_iff {stream : QByteArray} (h : LineBounds stream) :
    SplitIndependent nonce uid decodeStats stream ↔
      stream.length ≤ kPreAuthCap ∨ ¬ StartsWithHello nonce stream := by
  constructor
  · intro hind
    by_contra hc
    rw [not_or, not_le, not_not] at hc
    obtain ⟨hlong, hello, rest, rfl, hlf, hh, hlen⟩ := hc
    -- all at once, and the greeting on its own
    have hcuts := (hind [hello ++ lf :: rest] [hello ++ [lf], rest] (by simp) (by simp)).1
    rw [authOutcome_at_once nonce uid decodeStats hlong,
      authOutcome_greeting_first nonce uid decodeStats rest hlf hh hlen] at hcuts
    exact absurd hcuts (by decide)
  · rintro (hshort | hno)
    · exact splitIndependent_of_short nonce uid decodeStats hshort
    · rcases takeLine_cases stream with ⟨first, rest, -, rfl, hlf⟩ | ⟨-, hlf⟩
      · refine splitIndependent_of_rejected nonce uid decodeStats hlf fun hh => hno ?_
        exact ⟨first, rest, rfl, hlf, hh.1, hh.2⟩
      · -- one unfinished line: the bound on the first line is one on the stream
        have hbound := h.1 stream (by simp [splitLines_of_notMem hlf])
        exact splitIndependent_of_short nonce uid decodeStats hbound

end Splits

/-- A greeting and a `STATS` line with a payload of `n` blanks. -/
def greetingAndStats (n : ℕ) : QByteArray :=
  ascii "HELLO\tdeadbeef" ++ lf :: (ascii "STATS\t" ++ List.replicate n 0x20 ++ lf :: [])

theorem length_greetingAndStats (n : ℕ) : (greetingAndStats n).length = n + 22 := by
  have hhello : (ascii "HELLO\tdeadbeef").length = 14 := by decide
  have hstats : (ascii "STATS\t").length = 6 := by decide
  simp only [greetingAndStats, List.length_append, List.length_cons, List.length_replicate,
    List.length_nil, hhello, hstats]
  omega

theorem lineBounds_greetingAndStats {n : ℕ} (hn : n + 6 ≤ kPostAuthCap) :
    LineBounds (greetingAndStats n) := by
  have hhello : lf ∉ ascii "HELLO\tdeadbeef" := by decide
  have hstats : lf ∉ ascii "STATS\t" ++ List.replicate n 0x20 := by
    rw [List.mem_append, List.mem_replicate]
    rintro (h | ⟨-, h⟩)
    · exact absurd h (by decide)
    · exact absurd h (by decide)
  have hlines : splitLines (greetingAndStats n) =
      ([ascii "HELLO\tdeadbeef", ascii "STATS\t" ++ List.replicate n 0x20], []) := by
    rw [greetingAndStats, splitLines_line hhello, splitLines_line hstats]
    rfl
  rw [LineBounds, hlines]
  refine ⟨fun line hl => ?_, fun line hl => ?_⟩
  · obtain rfl : ascii "HELLO\tdeadbeef" = line := by simpa using hl
    decide
  · have hpay : (ascii "STATS\t").length = 6 := by decide
    obtain rfl | rfl : line = ascii "STATS\t" ++ List.replicate n 0x20 ∨ line = [] := by simpa using hl
    · rw [List.length_append, hpay, List.length_replicate]
      omega
    · exact Nat.zero_le _

/-- A greeting and a line of statistics of 1030 bytes: as one read they are refused, as two they are
not. -/
theorem reads_matter : LineBounds (greetingAndStats 1024) ∧
    ¬ SplitIndependent (ascii "deadbeef") 1000 (fun _ => ()) (greetingAndStats 1024) := by
  refine ⟨lineBounds_greetingAndStats (by decide), fun hind => ?_⟩
  have hcut : ∀ n, [ascii "HELLO\tdeadbeef" ++ [lf],
      ascii "STATS\t" ++ List.replicate n 0x20 ++ lf :: []].flatten = greetingAndStats n := by
    simp [greetingAndStats]
  have hcuts := (hind [greetingAndStats 1024] _ (List.append_nil _) (hcut 1024)).1
  rw [authOutcome_at_once _ _ _ (by rw [length_greetingAndStats]; decide),
    authOutcome_greeting_first _ _ _ _ (by decide) (by decide) (by decide)] at hcuts
  exact absurd hcuts (by decide)

/-- With a payload of a thousand blanks the stream fits, and its cuts do not matter. -/
theorem short_stats_independent : LineBounds (greetingAndStats 1000) ∧
    SplitIndependent (ascii "deadbeef") 1000 (fun _ => ()) (greetingAndStats 1000) := by
  have hbounds : LineBounds (greetingAndStats 1000) := lineBounds_greetingAndStats (by decide)
  refine ⟨hbounds, (split_independent_iff _ _ _ hbounds).2 (.inl ?_)⟩
  rw [length_greetingAndStats]
  decide

end Qiftop.Util
