import Qiftop.Util.HandoffServer

/-!
# Util — who the hand-over server obeys

What a connection said is what the server read from it (`heard`).  Each output of the server is
justified by the outputs before it (`Loyal`): a command goes to a connection whose first line was the
greeting with the nonce; a signal is that of a complete line heard on the same connection after the
greeting; a connection becomes the client only when every authenticated one before it has ended.

The invariant of a run (`Serves`) ties the one slot, the one buffer and the one flag of the server to
what was heard on the current connection: all of it while it is unauthenticated, and the part behind
the last complete line afterwards.
-/

namespace Qiftop.Util
open Qt Lib

variable {Stats : Type}

/-! ### What was heard -/

/-- The connection an output concerns. -/
def HandoffOutput.conn : HandoffOutput Stats → ℕ
  | .accepted c | .read c _ | .authenticated c | .signal c _ | .bye c | .write c _
  | .childDisconnected c => c

/-- What the server read from a connection. -/
def heard (c : ℕ) (outs : List (HandoffOutput Stats)) : QByteArray :=
  outs.flatMap fun
    | .read d bytes => if d = c then bytes else []
    | _ => []

@[simp] theorem heard_append (c : ℕ) (outs outs' : List (HandoffOutput Stats)) :
    heard c (outs ++ outs') = heard c outs ++ heard c outs' :=
  List.flatMap_append

/-- Nothing is heard of a connection no output concerns. -/
theorem heard_eq_nil {c : ℕ} {outs : List (HandoffOutput Stats)} (h : ∀ o ∈ outs, o.conn ≠ c) :
    heard c outs = [] := by
  refine List.flatMap_eq_nil_iff.mpr fun o ho => ?_
  have := h o ho
  cases o with
  | read d bytes => exact if_neg this
  | accepted d | authenticated d | signal d sig | bye d | write d bytes | childDisconnected d => rfl

/-- Bytes that end with a line feed, or none. -/
def Complete (bytes : QByteArray) : Prop := bytes = [] ∨ ∃ rest, bytes = rest ++ [lf]

/-- The first line heard was the greeting; `mid` is all that followed it in complete lines, `buf` the
rest. -/
def Follows (nonce : QByteArray) (c : ℕ) (buf : QByteArray) (outs : List (HandoffOutput Stats)) :
    Prop :=
  ∃ hello mid, heard c outs = hello ++ lf :: (mid ++ buf) ∧ lf ∉ hello ∧
    isHello nonce hello = true ∧ Complete mid

/-- The first line heard on the connection was the greeting with the nonce. -/
def Greeted (nonce : QByteArray) (c : ℕ) (outs : List (HandoffOutput Stats)) : Prop :=
  ∃ hello rest, heard c outs = hello ++ lf :: rest ∧ lf ∉ hello ∧ isHello nonce hello = true

/-- After the greeting, and after complete lines, a complete line with this signal was heard on the
connection. -/
def Spoken (nonce : QByteArray) (decodeStats : QByteArray → Stats) (c : ℕ) (sig : Signal Stats)
    (outs : List (HandoffOutput Stats)) : Prop :=
  ∃ hello mid line rest, heard c outs = hello ++ lf :: (mid ++ (line ++ lf :: rest)) ∧ lf ∉ hello ∧
    isHello nonce hello = true ∧ Complete mid ∧ lf ∉ line ∧ signalOf decodeStats line = some sig

/-- The connection is authenticated and has not ended. -/
def IsChild (c : ℕ) (outs : List (HandoffOutput Stats)) : Prop :=
  .authenticated c ∈ outs ∧ .childDisconnected c ∉ outs

/-- **What justifies an output**, of the outputs before it. -/
def Loyal (nonce : QByteArray) (decodeStats : QByteArray → Stats)
    (before : List (HandoffOutput Stats)) : HandoffOutput Stats → Prop
  | .write c _ => IsChild c before ∧ Greeted nonce c before
  | .signal c sig => IsChild c before ∧ Spoken nonce decodeStats c sig before
  | .accepted _ => ∀ c, .authenticated c ∈ before → .childDisconnected c ∈ before
  | .authenticated c => .childDisconnected c ∉ before
  | .read _ _ | .bye _ | .childDisconnected _ => True

theorem Follows.greeted {nonce : QByteArray} {c : ℕ} {buf : QByteArray}
    {outs : List (HandoffOutput Stats)} (h : Follows nonce c buf outs) : Greeted nonce c outs := by
  obtain ⟨hello, mid, he, hlf, hh, -⟩ := h
  exact ⟨hello, mid ++ buf, he, hlf, hh⟩

theorem Greeted.mono {nonce : QByteArray} {c : ℕ} {outs : List (HandoffOutput Stats)}
    (h : Greeted nonce c outs) (outs' : List (HandoffOutput Stats)) :
    Greeted nonce c (outs ++ outs') := by
  obtain ⟨hello, rest, he, hlf, hh⟩ := h
  exact ⟨hello, rest ++ heard c outs', by rw [heard_append, he]; simp, hlf, hh⟩

/-- A line taken off the buffer joins the complete lines. -/
theorem Follows.line {nonce : QByteArray} {c : ℕ} {line rest : QByteArray}
    {outs : List (HandoffOutput Stats)} (h : Follows nonce c (line ++ lf :: rest) outs) :
    Follows nonce c rest outs := by
  obtain ⟨hello, mid, he, hlf, hh, -⟩ := h
  refine ⟨hello, mid ++ (line ++ [lf]), ?_, hlf, hh, .inr ⟨mid ++ line, by simp⟩⟩
  rw [he]
  simp

/-! ### The invariant -/

/-- The slot, the flag and the outputs of a run. -/
structure Serves (nonce : QByteArray) (decodeStats : QByteArray → Stats) (s : HandoffServer)
    (outs : List (HandoffOutput Stats)) : Prop where
  nonce_eq : s.nonce = nonce
  known : ∀ o ∈ outs, o.conn < s.nextId
  current : ∀ c, s.client = some c → c < s.nextId ∧ .childDisconnected c ∉ outs
  idle : s.client = none → s.readBuf = [] ∧ s.authenticated = false
  waiting : ∀ c, s.client = some c → s.authenticated = false →
    heard c outs = s.readBuf ∧ .authenticated c ∉ outs ∧ s.closing = false ∧ s.unwritten = false
  child : ∀ c, s.client = some c → s.authenticated = true →
    .authenticated c ∈ outs ∧ Greeted nonce c outs
  ended : ∀ c, .authenticated c ∈ outs → s.client = some c ∨ .childDisconnected c ∈ outs
  loyal : AlwaysFrom (Loyal nonce decodeStats) [] outs

/-- The invariant between two events: until the client's socket closes, the buffer is what was heard
behind the last complete line. -/
structure Attends (nonce : QByteArray) (decodeStats : QByteArray → Stats) (s : HandoffServer)
    (outs : List (HandoffOutput Stats)) : Prop where
  serves : Serves nonce decodeStats s outs
  buffer : ∀ c, s.client = some c → s.authenticated = true → s.closing = false →
    Follows nonce c s.readBuf outs

/-- The invariant in the loop over the lines of the client `c`. -/
structure Reading (nonce : QByteArray) (decodeStats : QByteArray → Stats) (c : ℕ) (s : HandoffServer)
    (outs : List (HandoffOutput Stats)) : Prop where
  serves : Serves nonce decodeStats s outs
  client : s.client = none ∨ s.client = some c
  buffer : s.client = some c → s.authenticated = true → Follows nonce c s.readBuf outs

/-- An output that changes nothing in the server. -/
def Plain : HandoffOutput Stats → Prop
  | .signal _ _ | .write _ _ | .bye _ => True
  | _ => False

theorem heard_plain {o : HandoffOutput Stats} (h : Plain o) (c : ℕ)
    (outs : List (HandoffOutput Stats)) : heard c (outs ++ [o]) = heard c outs := by
  cases o with
  | signal d sig | write d bytes | bye d => simp [heard]
  | accepted d | read d bytes | authenticated d | childDisconnected d => exact h.elim

section Serves
variable {nonce : QByteArray} {decodeStats : QByteArray → Stats} {s : HandoffServer}
  {outs : List (HandoffOutput Stats)} {c : ℕ}

theorem Reading.attends (h : Reading nonce decodeStats c s outs) : Attends nonce decodeStats s outs where
  serves := h.serves
  buffer d hd ha _ := by
    rcases h.client with hc | hc
    · rw [hc] at hd
      cases hd
    · rw [hc] at hd
      cases hd
      exact h.buffer hc ha

theorem alwaysFrom_concat {Q : List (HandoffOutput Stats) → HandoffOutput Stats → Prop}
    (h : AlwaysFrom Q [] outs) {o : HandoffOutput Stats} (ho : Q outs o) :
    AlwaysFrom Q [] (outs ++ [o]) := by
  rw [alwaysFrom_append, List.nil_append]
  exact ⟨h, ho, trivial⟩

/-- A signal, a command or a farewell of the client. -/
theorem Serves.plain (h : Serves nonce decodeStats s outs) {o : HandoffOutput Stats} (hp : Plain o)
    (hc : s.client = some o.conn) (hl : Loyal nonce decodeStats outs o) :
    Serves nonce decodeStats s (outs ++ [o]) := by
  have hne : ∀ d, o ≠ .authenticated d ∧ o ≠ .childDisconnected d := by
    intro d
    constructor <;> rintro rfl <;> exact hp
  have hmem : ∀ o', (∀ d, o' ≠ .authenticated d ∧ o' ≠ .childDisconnected d) → ∀ d,
      (.authenticated d ∈ outs ++ [o'] ↔ .authenticated d ∈ outs) ∧
        (.childDisconnected d ∈ outs ++ [o'] ↔ .childDisconnected d ∈ outs) := by
    intro o' ho' d
    simp [(ho' d).1.symm, (ho' d).2.symm]
  refine ⟨h.nonce_eq, fun o' ho' => ?_, fun d hd => ?_, h.idle, fun d hd ha => ?_,
    fun d hd ha => ?_, fun d hd => ?_, alwaysFrom_concat h.loyal hl⟩
  · rcases List.mem_append.mp ho' with ho' | ho'
    · exact h.known o' ho'
    · rw [List.mem_singleton.mp ho']
      exact (h.current _ hc).1
  · rw [(hmem o hne d).2]
    exact h.current d hd
  · rw [heard_plain hp, (hmem o hne d).1]
    exact h.waiting d hd ha
  · obtain ⟨hauth, hg⟩ := h.child d hd ha
    exact ⟨List.mem_append_left _ hauth, hg.mono _⟩
  · rw [(hmem o hne d).1] at hd
    rw [(hmem o hne d).2]
    exact h.ended d hd

/-- The end of the client's connection. -/
theorem Serves.disconnected (h : Serves nonce decodeStats s outs) (hc : s.client = some c) :
    let r : HandoffServer × List (HandoffOutput Stats) := s.handleClientDisconnected c
    Serves nonce decodeStats r.1 (outs ++ r.2) := by
  intro r
  have hr : r.2 = [.childDisconnected c] := rfl
  rw [hr]
  refine ⟨h.nonce_eq, fun o ho => ?_, nofun, fun _ => ⟨rfl, rfl⟩, nofun, nofun, fun d hd => ?_,
    alwaysFrom_concat h.loyal trivial⟩
  · rcases List.mem_append.mp ho with ho | ho
    · exact h.known o ho
    · rw [List.mem_singleton.mp ho]
      exact (h.current c hc).1
  · right
    have hd' : .authenticated d ∈ outs := by simpa using hd
    rcases h.ended d hd' with he | he
    · rw [hc] at he
      cases he
      exact List.mem_append_right _ (List.mem_singleton.mpr rfl)
    · exact List.mem_append_left _ he

/-- Asking the client's socket to disconnect ends the connection, or leaves it to close. -/
theorem Serves.disconnectFromServer (h : Serves nonce decodeStats s outs) (hc : s.client = some c) :
    let r : HandoffServer × List (HandoffOutput Stats) := s.disconnectFromServer c
    Serves nonce decodeStats r.1 (outs ++ r.2) ∧
      (r.1.client = none ∨ s.authenticated = true ∧ r.1 = { s with closing := true } ∧ r.2 = []) := by
  intro r
  by_cases hw : s.unwritten = true
  · -- only an authenticated client is written to, so only its socket can have data left
    have hr : r = ({ s with closing := true }, []) := if_pos hw
    have ha : s.authenticated = true := by
      by_contra ha
      have := (h.waiting c hc (Bool.not_eq_true _ ▸ ha)).2.2.2
      rw [hw] at this
      cases this
    rw [hr]
    refine ⟨?_, .inr ⟨ha, rfl, rfl⟩⟩
    rw [List.append_nil]
    refine ⟨h.nonce_eq, h.known, h.current, h.idle, fun d hd hna => ?_, h.child, h.ended, h.loyal⟩
    rw [ha] at hna
    cases hna
  · have hr : r = s.handleClientDisconnected c := if_neg hw
    rw [hr]
    exact ⟨h.disconnected hc, .inl rfl⟩

/-- What is in the buffer does not matter to a rejection. -/
theorem HandoffServer.rejectClient_readBuf (s : HandoffServer) (buf : QByteArray) (c : ℕ) :
    (HandoffServer.rejectClient { s with readBuf := buf } c :
      HandoffServer × List (HandoffOutput Stats)) = s.rejectClient c := by
  obtain ⟨_, _, client, _, unwritten, _, _, _⟩ := s
  cases client <;> cases unwritten <;> rfl

theorem Serves.rejectClient (h : Serves nonce decodeStats s outs) (hc : s.client = some c) :
    let r : HandoffServer × List (HandoffOutput Stats) := s.rejectClient c
    Attends nonce decodeStats r.1 (outs ++ r.2) := by
  obtain ⟨hs, hcases⟩ := h.disconnectFromServer hc
  have hr : (s.rejectClient c : HandoffServer × List (HandoffOutput Stats)) =
      ({ (s.disconnectFromServer c : HandoffServer × List (HandoffOutput Stats)).1 with
        readBuf := [] }, (s.disconnectFromServer c).2) := by
    simp [HandoffServer.rejectClient, hc]
  intro r
  change Attends nonce decodeStats (s.rejectClient c : HandoffServer × List (HandoffOutput Stats)).1
    (outs ++ (s.rejectClient c : HandoffServer × List (HandoffOutput Stats)).2)
  rw [hr]
  -- the buffer is cleared in both cases; with data left, the client stays until it is written
  rcases hcases with hnone | ⟨ha, hst, hout⟩
  · refine ⟨⟨hs.nonce_eq, hs.known, hs.current, fun _ => ⟨rfl, (hs.idle hnone).2⟩, fun d hd => ?_,
      hs.child, hs.ended, hs.loyal⟩, fun d hd => ?_⟩
    · rw [hnone] at hd
      cases hd
    · rw [hnone] at hd
      cases hd
  · rw [hst, hout] at hs ⊢
    refine ⟨⟨hs.nonce_eq, hs.known, hs.current, fun hn => ⟨rfl, (hs.idle hn).2⟩, fun d hd hna => ?_,
      hs.child, hs.ended, hs.loyal⟩, nofun⟩
    rw [ha] at hna
    cases hna

/-- A command is written to the authenticated client. -/
theorem Serves.send (h : Serves nonce decodeStats s outs) (e : Command × Bool) :
    let r : HandoffServer × List (HandoffOutput Stats) := s.send e
    Serves nonce decodeStats r.1 (outs ++ r.2) ∧ (∀ d, heard d (outs ++ r.2) = heard d outs) ∧
      r.1.client = s.client ∧ r.1.readBuf = s.readBuf ∧ r.1.authenticated = s.authenticated ∧
      r.1.closing = s.closing := by
  intro r
  cases hc : s.client with
  | none =>
      have hr : r = (s, []) := by simp [r, HandoffServer.send, hc]
      rw [hr, List.append_nil]
      exact ⟨h, fun _ => rfl, hc, rfl, rfl, rfl⟩
  | some c =>
      cases ha : s.authenticated with
      | false =>
          have hr : r = (s, []) := by simp [r, HandoffServer.send, hc, ha]
          rw [hr, List.append_nil]
          exact ⟨h, fun _ => rfl, hc, rfl, ha, rfl⟩
      | true =>
          have hr : r = ({ s with unwritten := e.2 }, [.write c (e.1.line ++ [lf])]) := by
            simp [r, HandoffServer.send, hc, ha]
          rw [hr]
          have hw := h.plain (o := .write c (e.1.line ++ [lf])) trivial hc
            ⟨⟨(h.child c hc ha).1, (h.current c hc).2⟩, (h.child c hc ha).2⟩
          refine ⟨⟨hw.nonce_eq, hw.known, hw.current, hw.idle, fun d hd hna => ?_, hw.child, hw.ended,
            hw.loyal⟩, fun d => heard_plain (o := .write c _) trivial d outs, hc, rfl,
            ha, rfl⟩
          rw [ha] at hna
          cases hna

end Serves

/-! ### The loop -/

section Reading
variable {nonce : QByteArray} {decodeStats : QByteArray → Stats} {s : HandoffServer}
  {outs : List (HandoffOutput Stats)} {c : ℕ}

theorem Follows.congr {buf : QByteArray} {outs' : List (HandoffOutput Stats)}
    (h : Follows nonce c buf outs) (he : heard c outs' = heard c outs) : Follows nonce c buf outs' := by
  unfold Follows
  rw [he]
  exact h

theorem Reading.send (h : Reading nonce decodeStats c s outs) (e : Command × Bool) :
    let r : HandoffServer × List (HandoffOutput Stats) := s.send e
    Reading nonce decodeStats c r.1 (outs ++ r.2) := by
  intro r
  obtain ⟨hs, hheard, hc, hbuf, ha, -⟩ := h.serves.send e
  refine ⟨hs, hc ▸ h.client, fun hc' ha' => ?_⟩
  rw [hc] at hc'
  rw [ha] at ha'
  rw [hbuf]
  exact (h.buffer hc' ha').congr (hheard c)

/-- A line of the authenticated client: a signal, a farewell, or nothing. -/
theorem Reading.dispatch (h : Serves nonce decodeStats s outs) (hc : s.client = some c)
    (ha : s.authenticated = true) {line : QByteArray} (hlf : lf ∉ line)
    (hf : Follows nonce c (line ++ lf :: s.readBuf) outs) (react : List (Command × Bool)) :
    Reading nonce decodeStats c (s.dispatch decodeStats c line react).1
      (outs ++ (s.dispatch decodeStats c line react).2) := by
  have hstay : Reading nonce decodeStats c s outs := ⟨h, .inr hc, fun _ _ => hf.line⟩
  unfold HandoffServer.dispatch
  split
  · rw [List.append_nil]
    exact hstay
  · cases hsig : signalOf decodeStats line with
    | some sig =>
        dsimp only
        have hspoken : Spoken nonce decodeStats c sig outs := by
          obtain ⟨hello, mid, he, hl, hh, hm⟩ := hf
          exact ⟨hello, mid, line, s.readBuf, he, hl, hh, hm, hlf, hsig⟩
        -- the signal first, then what its slots send
        have hsaid : Reading nonce decodeStats c s (outs ++ [.signal c sig]) :=
          ⟨h.plain (o := .signal c sig) trivial hc
              ⟨⟨(h.child c hc ha).1, (h.current c hc).2⟩, hspoken⟩, .inr hc,
            fun _ _ => hf.line.congr (heard_plain (o := .signal c sig) trivial c outs)⟩
        have := run_trace_invariant (Reading nonce decodeStats c) (fun s tr e h => h.send e)
          (outs ++ [.signal c sig]) hsaid react
        simpa using this
    | none =>
        dsimp only
        split
        · have hbye : Serves nonce decodeStats s (outs ++ [.bye c]) :=
            h.plain (o := .bye c) trivial hc trivial
          obtain ⟨hs, hcases⟩ := hbye.disconnectFromServer hc
          simp only [hc, Option.isSome_some, if_true]
          rw [← List.append_cons] at hs
          refine ⟨hs, ?_, ?_⟩
          · rcases hcases with hnone | ⟨-, hst, -⟩
            · exact .inl hnone
            · rw [hst]
              exact .inr hc
          · -- a socket that waits for its data keeps the buffer, and reads no more
            intro hc' _
            rcases hcases with hnone | ⟨-, hst, hout⟩
            · rw [hnone] at hc'
              cases hc'
            · rw [hst, hout]
              exact hf.line.congr (heard_plain (o := .bye c) trivial c outs)
        · rw [List.append_nil]
          exact hstay

/-- The greeting authenticates the client. -/
theorem Reading.hello (h : Serves nonce decodeStats s outs) (hc : s.client = some c)
    (ha : s.authenticated = false) {line rest : QByteArray} (hbuf : s.readBuf = line ++ lf :: rest)
    (hlf : lf ∉ line) (hh : isHello nonce line = true) :
    Reading nonce decodeStats c { s with readBuf := rest, authenticated := true }
      (outs ++ [.authenticated c]) := by
  obtain ⟨hheard, -, -, -⟩ := h.waiting c hc ha
  have hnew : heard c (outs ++ [.authenticated c]) = line ++ lf :: rest := by
    rw [heard_append, hheard, hbuf]
    exact List.append_nil _
  have hfollows : Follows nonce c rest (outs ++ [.authenticated c]) :=
    ⟨line, [], hnew, hlf, hh, .inl rfl⟩
  have hlt := (h.current c hc).1
  refine ⟨⟨h.nonce_eq, fun o ho => ?_, fun d hd => ?_, fun hn => ?_, nofun, fun d hd _ => ?_,
    fun d hd => ?_, alwaysFrom_concat h.loyal (h.current c hc).2⟩, .inr hc, fun _ _ => hfollows⟩
  · rcases List.mem_append.mp ho with ho | ho
    · exact h.known o ho
    · rw [List.mem_singleton.mp ho]
      exact hlt
  · refine ⟨(h.current d hd).1, fun hmem => (h.current d hd).2 ?_⟩
    simpa using hmem
  · rw [hc] at hn
    cases hn
  · rw [hc] at hd
    cases hd
    exact ⟨by simp, hfollows.greeted⟩
  · simp only [List.mem_append, List.mem_singleton, HandoffOutput.authenticated.injEq] at hd
    rcases hd with hd | rfl
    · rcases h.ended d hd with he | he
      · exact .inl he
      · exact .inr (List.mem_append_left _ he)
    · exact .inl hc

/-- The loop over the lines keeps the invariant. -/
theorem handleLines_attends (react : Reactions) (fuel k : ℕ) {s : HandoffServer}
    {outs : List (HandoffOutput Stats)} (h : Reading nonce decodeStats c s outs) :
    Attends nonce decodeStats (s.handleLines decodeStats c react fuel k).1
      (outs ++ (s.handleLines decodeStats c react fuel k).2) := by
  induction fuel generalizing k s outs with
  | zero =>
      rw [HandoffServer.handleLines, List.append_nil]
      exact h.attends
  | succ fuel ih =>
      rw [HandoffServer.handleLines]
      rcases takeLine_cases s.readBuf with ⟨line, rest, htake, hbuf, hlf⟩ | ⟨htake, -⟩
      · rw [htake]
        dsimp only
        have hc : s.client = some c := by
          rcases h.client with hc | hc
          · -- without a client the buffer is empty
            rw [(h.serves.idle hc).1] at hbuf
            simp at hbuf
          · exact hc
        rcases Bool.eq_false_or_eq_true s.authenticated with ha | ha
        · rw [if_neg (by simp [ha])]
          have hserves : Serves nonce decodeStats { s with readBuf := rest } outs :=
            ⟨h.serves.nonce_eq, h.serves.known, h.serves.current, fun hn => by simp [hc] at hn,
              fun d hd hna => by simp [ha] at hna, h.serves.child, h.serves.ended, h.serves.loyal⟩
          have hf := h.buffer hc ha
          rw [hbuf] at hf
          have := ih (k + 1) (Reading.dispatch hserves hc ha hlf hf (react k))
          simpa using this
        · rw [if_pos (by simp [ha])]
          split
          · next hh =>
              rw [h.serves.nonce_eq] at hh
              have := ih k (Reading.hello h.serves hc ha hbuf hlf hh)
              simpa using this
          · rw [HandoffServer.rejectClient_readBuf]
            exact h.serves.rejectClient hc
      · rw [htake, List.append_nil]
        exact h.attends

/-- Reading from the client keeps the invariant. -/
theorem Attends.handleReadyRead (h : Attends nonce decodeStats s outs) (hc : s.client = some c)
    (hclose : s.closing = false) (bytes : QByteArray) (react : Reactions) :
    Attends nonce decodeStats (s.handleReadyRead decodeStats c bytes react).1
      (outs ++ (s.handleReadyRead decodeStats c bytes react).2) := by
  have hs := h.serves
  have hheard : heard c (outs ++ [.read c bytes]) = heard c outs ++ bytes := by
    rw [heard_append]
    simp [heard]
  -- the bytes are in the buffer, none of them looked at
  have hread : Reading nonce decodeStats c { s with readBuf := s.readBuf ++ bytes }
      (outs ++ [.read c bytes]) := by
    refine ⟨⟨hs.nonce_eq, fun o ho => ?_, fun d hd => ?_, fun hn => ?_, fun d hd ha => ?_,
      fun d hd ha => ?_, fun d hd => ?_, alwaysFrom_concat hs.loyal trivial⟩, .inr hc,
      fun _ ha => ?_⟩
    · rcases List.mem_append.mp ho with ho | ho
      · exact hs.known o ho
      · rw [List.mem_singleton.mp ho]
        exact (hs.current c hc).1
    · refine ⟨(hs.current d hd).1, fun hmem => (hs.current d hd).2 ?_⟩
      simpa using hmem
    · rw [hc] at hn
      cases hn
    · obtain rfl : c = d := Option.some.inj (hc.symm.trans hd)
      obtain ⟨hbuf, hauth, hrest⟩ := hs.waiting c hd ha
      exact ⟨by rw [hheard, hbuf], by simpa using hauth, hrest⟩
    · obtain ⟨hauth, hg⟩ := hs.child d hd ha
      exact ⟨List.mem_append_left _ hauth, hg.mono _⟩
    · have hd' : .authenticated d ∈ outs := by simpa using hd
      exact (hs.ended d hd').imp_right (List.mem_append_left _)
    · obtain ⟨hello, mid, he, hl, hh, hm⟩ := h.buffer c hc ha hclose
      exact ⟨hello, mid, by rw [hheard, he]; simp, hl, hh, hm⟩
  unfold HandoffServer.handleReadyRead
  dsimp only
  rw [List.append_cons]
  split
  · exact hread.serves.rejectClient hc
  · split
    · exact hread.serves.rejectClient hc
    · exact handleLines_attends react _ 0 hread

/-- A new client starts with an empty buffer. -/
theorem Serves.accept_readBuf (hs : Serves nonce decodeStats s outs) (c : ℕ) :
    (s.accept c).readBuf = [] := by
  unfold HandoffServer.accept
  cases hc : s.client with
  | none => exact (hs.idle hc).1
  | some d => rfl

theorem accept_same (s : HandoffServer) (c : ℕ) :
    (s.accept c).nonce = s.nonce ∧ (s.accept c).nextId = s.nextId := by
  unfold HandoffServer.accept
  cases s.client <;> exact ⟨rfl, rfl⟩

/-- A connection takes the slot when its holder, if any, is unauthenticated. -/
theorem Serves.accept (hs : Serves nonce decodeStats s outs) (ha : s.authenticated = false)
    (hlt : ∀ o ∈ outs, o.conn < c) (hnext : c < s.nextId) :
    Attends nonce decodeStats (s.accept c) (outs ++ [.accepted c]) := by
  have hsame := accept_same s c
  have hnone : heard c (outs ++ [.accepted c]) = [] := by
    rw [heard_append, heard_eq_nil fun o ho => (hlt o ho).ne]
    rfl
  have hfresh : ∀ o ∈ outs ++ [.accepted c], (∀ d, o ≠ .accepted d) → o.conn ≠ c := by
    intro o ho hne
    rcases List.mem_append.mp ho with ho | ho
    · exact (hlt o ho).ne
    · exact absurd (List.mem_singleton.mp ho) (hne c)
  refine ⟨⟨hsame.1.trans hs.nonce_eq, fun o ho => ?_, fun d hd => ?_, nofun, fun d hd _ => ?_, nofun,
    fun d hd => ?_, alwaysFrom_concat hs.loyal fun d hd => ?_⟩, nofun⟩
  · rw [hsame.2]
    rcases List.mem_append.mp ho with ho | ho
    · exact hs.known o ho
    · rw [List.mem_singleton.mp ho]
      exact hnext
  · obtain rfl : c = d := Option.some.inj hd
    exact ⟨hsame.2 ▸ hnext, fun hmem => hfresh _ hmem nofun rfl⟩
  · obtain rfl : c = d := Option.some.inj hd
    exact ⟨by rw [hnone, hs.accept_readBuf], fun hmem => hfresh _ hmem nofun rfl, rfl, rfl⟩
  all_goals
    have hd' : .authenticated d ∈ outs := by simpa using hd
    have hend : .childDisconnected d ∈ outs := by
      rcases hs.ended d hd' with hc | he
      · exact absurd hd' (hs.waiting d hc ha).2.1
      · exact he
  · exact .inr (List.mem_append_left _ hend)
  · exact hend

/-- A connection that is turned away only uses up its number. -/
theorem Serves.turned (hs : Serves nonce decodeStats s outs) :
    Serves nonce decodeStats { s with nextId := s.nextId + 1 } outs where
  nonce_eq := hs.nonce_eq
  known o ho := Nat.lt_succ_of_lt (hs.known o ho)
  current c hc := ⟨Nat.lt_succ_of_lt (hs.current c hc).1, (hs.current c hc).2⟩
  idle := hs.idle
  waiting := hs.waiting
  child := hs.child
  ended := hs.ended
  loyal := hs.loyal

/-- A further connection: rejected, or the new client. -/
theorem Attends.handleNewConnection (h : Attends nonce decodeStats s outs) (peer : Option UInt32)
    (initial : QByteArray) (react : Reactions) :
    Attends nonce decodeStats (s.handleNewConnection decodeStats peer initial react).1
      (outs ++ (s.handleNewConnection decodeStats peer initial react).2) := by
  have hs := h.serves
  have hturned : Attends nonce decodeStats { s with nextId := s.nextId + 1 } outs :=
    ⟨hs.turned, h.buffer⟩
  unfold HandoffServer.handleNewConnection
  dsimp only
  split
  · rw [List.append_nil]
    exact hturned
  · split
    · rw [List.append_nil]
      exact hturned
    · next hfree =>
        have ha : s.authenticated = false := by
          cases hc : s.client with
          | none => exact (hs.idle hc).2
          | some c => simpa [hc] using hfree
        have hacc := hturned.serves.accept ha hs.known (Nat.lt_succ_self _)
        split
        · have := hacc.handleReadyRead rfl rfl initial react
          simpa using this
        · simpa using hacc

/-- **Every event keeps the invariant.** -/
theorem step_attends (h : Attends nonce decodeStats s outs) (e : HandoffEvent) :
    Attends nonce decodeStats (s.step decodeStats e).1 (outs ++ (s.step decodeStats e).2) := by
  have hs := h.serves
  -- what follows an end of the client's connection
  have hended : ∀ c, s.client = some c →
      let r : HandoffServer × List (HandoffOutput Stats) := s.handleClientDisconnected c
      Attends nonce decodeStats r.1 (outs ++ r.2) := fun c hc => ⟨hs.disconnected hc, nofun⟩
  cases e with
  | connect peer initial react => exact h.handleNewConnection peer initial react
  | deliver c bytes react =>
      rw [HandoffServer.step]
      split
      · next hc => exact h.handleReadyRead hc.1 (by simpa using hc.2) bytes react
      · rwa [List.append_nil]
  | peerClosed c =>
      rw [HandoffServer.step]
      split
      · next hc => exact hended c hc
      · rwa [List.append_nil]
  | send command leftover =>
      obtain ⟨hs', hheard, hc, hbuf, ha, hclose⟩ := hs.send (command, leftover)
      refine ⟨hs', fun c hc' ha' hclose' => ?_⟩
      have hf := h.buffer c (hc ▸ hc') (ha ▸ ha') (hclose ▸ hclose')
      exact (show Follows nonce c _ _ from hbuf ▸ hf).congr (hheard c)
  | written c =>
      rw [HandoffServer.step]
      split
      · next hc =>
          split
          · exact hended c hc
          · rw [List.append_nil]
            refine ⟨⟨hs.nonce_eq, hs.known, hs.current, hs.idle, fun d hd ha => ?_, hs.child, hs.ended,
              hs.loyal⟩, h.buffer⟩
            obtain ⟨hbuf, hauth, hclose, -⟩ := hs.waiting d hd ha
            exact ⟨hbuf, hauth, hclose, rfl⟩
      · rwa [List.append_nil]

end Reading

/-! ### Runs -/

/-- A server that has not seen a connection. -/
def HandoffServer.listening (nonce : QByteArray) (expectedChildUid : UInt32) : HandoffServer where
  nonce
  expectedChildUid

theorem listening_attends (nonce : QByteArray) (expectedChildUid : UInt32)
    (decodeStats : QByteArray → Stats) :
    Attends nonce decodeStats (.listening nonce expectedChildUid) [] :=
  ⟨⟨rfl, nofun, nofun, fun _ => ⟨rfl, rfl⟩, nofun, nofun, nofun, trivial⟩, nofun⟩

theorem run_attends (nonce : QByteArray) (expectedChildUid : UInt32)
    (decodeStats : QByteArray → Stats) (events : List HandoffEvent) :
    let r := run (HandoffServer.step decodeStats) (.listening nonce expectedChildUid) events
    Attends nonce decodeStats r.1 r.2 :=
  run_trace_invariant (Attends nonce decodeStats) (fun _ _ e h => step_attends h e) []
    (listening_attends nonce expectedChildUid decodeStats) events

/-- **The server obeys only the authenticated child.**  In every run: a command is written only to an
authenticated connection, whose first line was the greeting with the nonce; a signal is that of a
complete line heard on an authenticated connection, after the greeting and whole lines; and between
the authentication of a connection and the acceptance of any other, the authenticated one has
ended. -/
theorem obeys_only_the_child (nonce : QByteArray) (expectedChildUid : UInt32)
    (decodeStats : QByteArray → Stats) (events : List HandoffEvent) :
    let outs := (run (HandoffServer.step decodeStats) (.listening nonce expectedChildUid) events).2
    (∀ pre c bytes post, outs = pre ++ .write c bytes :: post →
      IsChild c pre ∧ Greeted nonce c pre) ∧
    (∀ pre c sig post, outs = pre ++ .signal c sig :: post →
      IsChild c pre ∧ Spoken nonce decodeStats c sig pre) ∧
    ∀ pre c mid d post, outs = pre ++ .authenticated c :: (mid ++ .accepted d :: post) →
      .childDisconnected c ∈ mid := by
  intro outs
  have hloyal : AlwaysFrom (Loyal nonce decodeStats) [] outs :=
    (run_attends nonce expectedChildUid decodeStats events).serves.loyal
  refine ⟨fun pre c bytes post e => hloyal.split e, fun pre c sig post e => hloyal.split e,
    fun pre c mid d post e => ?_⟩
  have hbefore : .childDisconnected c ∉ pre := hloyal.split e
  have e' : outs = (pre ++ .authenticated c :: mid) ++ .accepted d :: post := by
    rw [e]
    simp
  have hsince : ∀ b, .authenticated b ∈ pre ++ .authenticated c :: mid →
      .childDisconnected b ∈ pre ++ .authenticated c :: mid := hloyal.split e'
  have hmem := hsince c (by simp)
  simpa [hbefore] using hmem

end Qiftop.Util
