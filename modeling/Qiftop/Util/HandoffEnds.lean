import Qiftop.Util.HandoffAuth

/-!
# Util — whose end the hand-over server announces

`childDisconnected` is emitted whenever the client's connection ends, authenticated or not; only an
evicted peer goes unannounced, its signals being disconnected first.  So the announcements of a run
are all of authenticated connections exactly when no unauthenticated client leaves, says a first line
other than the greeting, or says too much before it (`Orderly`).
-/

namespace Qiftop.Util
open Qt Lib HandoffServer

variable {Stats : Type}

/-- An end is announced of an authenticated connection. -/
def Announced (before : List (HandoffOutput Stats)) : HandoffOutput Stats → Prop
  | .childDisconnected c => .authenticated c ∈ before
  | _ => True

/-- What an unauthenticated client has said is short, and its first line, if complete, is the
greeting. -/
def Greets (nonce buf : QByteArray) : Prop :=
  buf.length ≤ kPreAuthCap ∧ ∀ line rest, takeLine buf = some (line, rest) →
    isHello nonce line = true

/-- No unauthenticated client leaves, says a wrong first line or says too much. -/
def Orderly (s : HandoffServer) : HandoffEvent → Prop
  | .connect peer initial _ => s.allowed peer = true → (s.client.isSome && s.authenticated) = false →
      Greets s.nonce initial
  | .deliver c bytes _ => s.client = some c → s.authenticated = false →
      Greets s.nonce (s.readBuf ++ bytes)
  | .peerClosed c => s.client = some c → s.authenticated = true
  | .send _ _ | .written _ => True

/-! ### Ends of the client -/

section Ends
variable (decodeStats : QByteArray → Stats) (c : ℕ)

/-- Of the outputs, only `c` ends. -/
def OnlyEnds (outs : List (HandoffOutput Stats)) : Prop := ∀ d, .childDisconnected d ∈ outs → d = c

variable {c}

theorem onlyEnds_nil : OnlyEnds c ([] : List (HandoffOutput Stats)) :=
  fun _ hd => absurd hd List.not_mem_nil

theorem OnlyEnds.append {outs outs' : List (HandoffOutput Stats)} (h : OnlyEnds c outs)
    (h' : OnlyEnds c outs') : OnlyEnds c (outs ++ outs') :=
  fun d hd => (List.mem_append.mp hd).elim (h d) (h' d)

theorem OnlyEnds.cons {outs : List (HandoffOutput Stats)} {o : HandoffOutput Stats}
    (ho : ∀ d, o = .childDisconnected d → d = c) (h : OnlyEnds c outs) : OnlyEnds c (o :: outs) := by
  intro d hd
  rcases List.mem_cons.mp hd with e | hd
  · exact ho d e.symm
  · exact h d hd

theorem onlyEnds_disconnectFromServer (s : HandoffServer) :
    OnlyEnds c (s.disconnectFromServer c : HandoffServer × List (HandoffOutput Stats)).2 := by
  unfold disconnectFromServer
  split
  · exact onlyEnds_nil
  · exact .cons (fun d e => by cases e; rfl) onlyEnds_nil

theorem onlyEnds_rejectClient (s : HandoffServer) :
    OnlyEnds c (s.rejectClient c : HandoffServer × List (HandoffOutput Stats)).2 := by
  unfold rejectClient
  dsimp only
  split
  · exact onlyEnds_disconnectFromServer s
  · exact onlyEnds_nil

theorem onlyEnds_sends (s : HandoffServer) (react : List (Command × Bool)) :
    OnlyEnds c (run send s react : HandoffServer × List (HandoffOutput Stats)).2 := by
  induction react generalizing s with
  | nil => exact onlyEnds_nil
  | cons e react ih =>
      refine OnlyEnds.append ?_ (ih _)
      unfold HandoffServer.send
      split
      · exact onlyEnds_nil
      · split
        · exact onlyEnds_nil
        · exact .cons nofun onlyEnds_nil

theorem onlyEnds_dispatch (s : HandoffServer) (line : QByteArray) (react : List (Command × Bool)) :
    OnlyEnds c (s.dispatch decodeStats c line react).2 := by
  unfold dispatch
  split
  · exact onlyEnds_nil
  · cases signalOf decodeStats line with
    | some sig => exact .cons nofun (onlyEnds_sends s react)
    | none =>
        dsimp only
        split
        · refine .cons nofun ?_
          split
          · exact onlyEnds_disconnectFromServer s
          · exact onlyEnds_nil
        · exact onlyEnds_nil

theorem onlyEnds_handleLines (react : Reactions) (fuel k : ℕ) (s : HandoffServer) :
    OnlyEnds c (s.handleLines decodeStats c react fuel k).2 := by
  induction fuel generalizing k s with
  | zero => exact onlyEnds_nil
  | succ fuel ih =>
      rw [handleLines]
      cases takeLine s.readBuf with
      | none => exact onlyEnds_nil
      | some r =>
          dsimp only
          split
          · split
            · exact .cons (fun d e => by cases e) (ih _ _)
            · exact onlyEnds_rejectClient _
          · exact (onlyEnds_dispatch decodeStats _ r.1 (react k)).append (ih _ _)

theorem onlyEnds_handleReadyRead (s : HandoffServer) (bytes : QByteArray) (react : Reactions) :
    OnlyEnds c (s.handleReadyRead decodeStats c bytes react).2 := by
  unfold handleReadyRead
  refine .cons nofun ?_
  dsimp only
  split
  · exact onlyEnds_rejectClient _
  · split
    · exact onlyEnds_rejectClient _
    · exact onlyEnds_handleLines decodeStats react _ 0 _

/-- Ends of an authenticated connection are announced in order. -/
theorem OnlyEnds.announced {before outs : List (HandoffOutput Stats)} (h : OnlyEnds c outs)
    (hc : .authenticated c ∈ before) : AlwaysFrom Announced before outs := by
  rw [alwaysFrom_iff_split]
  rintro pre o post rfl
  cases o with
  | childDisconnected d =>
      obtain rfl := h d (by simp)
      exact List.mem_append_left _ hc
  | accepted d | read d bytes | authenticated d | signal d sig | bye d | write d bytes => trivial

end Ends

/-! ### One event -/

section Step
variable {nonce : QByteArray} {decodeStats : QByteArray → Stats} {s : HandoffServer}
  {outs : List (HandoffOutput Stats)} {c : ℕ}

/-- An unauthenticated client is rejected: its end is announced at once. -/
theorem rejectClient_eq (hc : s.client = some c) (hw : s.unwritten = false) :
    (s.rejectClient c : HandoffServer × List (HandoffOutput Stats)).2 = [.childDisconnected c] := by
  simp [rejectClient, hc, disconnectFromServer, hw, handleClientDisconnected]

/-- The end of an unauthenticated connection, announced, is not in order. -/
theorem not_announced (hauth : .authenticated c ∉ outs) (bytes : QByteArray) :
    ¬ AlwaysFrom Announced outs [.read c bytes, .childDisconnected c] := by
  rintro ⟨-, hend, -⟩
  exact hauth (by simpa [Announced] using hend)

variable (decodeStats) in
/-- Reading from an unauthenticated client. -/
theorem handleReadyRead_announced_iff (hc : s.client = some c) (ha : s.authenticated = false)
    (hw : s.unwritten = false) (hauth : .authenticated c ∉ outs) (bytes : QByteArray)
    (react : Reactions) :
    AlwaysFrom Announced outs (s.handleReadyRead decodeStats c bytes react).2 ↔
      Greets s.nonce (s.readBuf ++ bytes) := by
  unfold handleReadyRead
  dsimp only
  by_cases hlen : (s.readBuf ++ bytes).length > kPreAuthCap
  · rw [if_pos ⟨by simp [ha], hlen⟩, rejectClient_readBuf, rejectClient_eq hc hw]
    exact iff_of_false (not_announced hauth bytes) fun h => absurd h.1 (by omega)
  · rw [if_neg fun h => hlen h.2, if_neg (by simp [ha])]
    rcases takeLine_cases (s.readBuf ++ bytes) with ⟨line, rest, htake, hbuf, -⟩ | ⟨htake, -⟩
    · obtain ⟨fuel, hfuel⟩ := Nat.exists_eq_add_one_of_ne_zero
        (n := (s.readBuf ++ bytes).length) (by rw [hbuf]; simp)
      rw [hfuel, handleLines, htake]
      dsimp only
      rw [if_pos (by simp [ha])]
      by_cases hh : isHello s.nonce line = true
      · -- from here on the client is authenticated, whatever the other lines bring
        rw [if_pos hh]
        refine iff_of_true ⟨trivial, trivial, ?_⟩ ⟨by omega, fun line' rest' h => ?_⟩
        · exact (onlyEnds_handleLines decodeStats react _ _ _).announced (by simp)
        · rw [htake] at h
          cases h
          exact hh
      · rw [if_neg hh, rejectClient_readBuf, rejectClient_eq hc hw]
        exact iff_of_false (not_announced hauth bytes) fun h => hh (h.2 line rest htake)
    · have hnone : handleLines decodeStats c react (s.readBuf ++ bytes).length 0
          { s with readBuf := s.readBuf ++ bytes } = ({ s with readBuf := s.readBuf ++ bytes }, []) := by
        cases (s.readBuf ++ bytes).length with
        | zero => rfl
        | succ fuel => rw [handleLines, htake]
      rw [hnone]
      refine iff_of_true ⟨trivial, trivial⟩ ⟨by omega, fun line' rest' h => ?_⟩
      rw [htake] at h
      cases h

/-- A connection: what counts is what the peer has sent, if it becomes the client. -/
theorem connect_announced_iff (h : Attends nonce decodeStats s outs) (peer : Option UInt32)
    (initial : QByteArray) (react : Reactions) :
    AlwaysFrom Announced outs (s.handleNewConnection decodeStats peer initial react).2 ↔
      Orderly s (.connect peer initial react) := by
  have hs := h.serves
  have hallow : allowed { s with nextId := s.nextId + 1 } peer = s.allowed peer := rfl
  rw [handleNewConnection, Orderly, hallow]
  dsimp only
  by_cases hallowed : s.allowed peer = true
  · by_cases hfree : (s.client.isSome && s.authenticated) = true
    · rw [if_neg (by simp [hallowed]), if_pos hfree]
      exact iff_of_true trivial fun _ hf => absurd hf (by simp [hfree])
    · rw [if_neg (by simp [hallowed]), if_neg hfree]
      have hauth : .authenticated s.nextId ∉ outs ++ [.accepted s.nextId] := by
        intro hmem
        have hmem' : .authenticated s.nextId ∈ outs := by simpa using hmem
        exact absurd (hs.known _ hmem') (lt_irrefl _)
      -- the new client starts with an empty buffer
      have hread := handleReadyRead_announced_iff decodeStats
        (s := accept { s with nextId := s.nextId + 1 } s.nextId) rfl rfl rfl hauth initial react
      rw [hs.turned.accept_readBuf, (accept_same _ _).1, List.nil_append] at hread
      have hgreets : AlwaysFrom Announced outs (.accepted s.nextId ::
          (if initial ≠ [] then handleReadyRead decodeStats
            (accept { s with nextId := s.nextId + 1 } s.nextId) s.nextId initial react
          else (accept { s with nextId := s.nextId + 1 } s.nextId, [])).2) ↔
          Greets s.nonce initial := by
        by_cases hi : initial = []
        · subst hi
          exact iff_of_true ⟨trivial, trivial⟩ ⟨Nat.zero_le _, nofun⟩
        · rw [if_pos hi]
          exact (and_iff_right trivial).trans hread
      rw [hgreets]
      exact ⟨fun hg _ _ => hg, fun hg => hg hallowed (Bool.not_eq_true _ ▸ hfree)⟩
  · rw [if_pos (by simp [hallowed])]
    exact iff_of_true trivial fun h => absurd h hallowed

/-- A read: an authenticated client's end may be announced, another's may not. -/
theorem deliver_announced_iff (h : Attends nonce decodeStats s outs) (c : ℕ) (bytes : QByteArray)
    (react : Reactions) :
    AlwaysFrom Announced outs (s.step decodeStats (.deliver c bytes react)).2 ↔
      Orderly s (.deliver c bytes react) := by
  have hs := h.serves
  rw [step, Orderly]
  by_cases hc : s.client = some c
  · rcases Bool.eq_false_or_eq_true s.authenticated with ha | ha
    · -- all that an authenticated client's bytes can end is its own connection
      refine iff_of_true ?_ fun _ hna => absurd ha (by simp [hna])
      split
      · exact (onlyEnds_handleReadyRead decodeStats s bytes react).announced (hs.child c hc ha).1
      · trivial
    · obtain ⟨-, hauth, hclose, hw⟩ := hs.waiting c hc ha
      rw [if_pos ⟨hc, by simp [hclose]⟩, handleReadyRead_announced_iff decodeStats hc ha hw hauth]
      exact ⟨fun hg _ _ => hg, fun hg => hg hc ha⟩
  · rw [if_neg fun h => hc h.1]
    exact iff_of_true trivial fun h => absurd h hc

/-- **An event announces ends in order exactly when it is orderly.** -/
theorem step_announced_iff (h : Attends nonce decodeStats s outs) (e : HandoffEvent) :
    AlwaysFrom Announced outs (s.step decodeStats e).2 ↔ Orderly s e := by
  have hs := h.serves
  cases e with
  | connect peer initial react => exact connect_announced_iff h peer initial react
  | deliver c bytes react => exact deliver_announced_iff h c bytes react
  | peerClosed c =>
      rw [step, Orderly]
      by_cases hc : s.client = some c
      · rw [if_pos hc]
        constructor
        · rintro ⟨hauth, -⟩ -
          by_contra ha
          exact (hs.waiting c hc (Bool.not_eq_true _ ▸ ha)).2.1 hauth
        · intro ha
          exact ⟨(hs.child c hc (ha hc)).1, trivial⟩
      · rw [if_neg hc]
        exact iff_of_true trivial fun h => absurd h hc
  | send command leftover =>
      refine iff_of_true ?_ trivial
      rw [step, HandoffServer.send]
      split
      · trivial
      · split
        · trivial
        · exact ⟨trivial, trivial⟩
  | written c =>
      refine iff_of_true ?_ trivial
      rw [step]
      split
      · next hc =>
          split
          · next hclose =>
              rcases Bool.eq_false_or_eq_true s.authenticated with ha | ha
              · exact ⟨(hs.child c hc ha).1, trivial⟩
              · rw [(hs.waiting c hc ha).2.2.1] at hclose
                cases hclose
          · trivial
      · trivial

end Step

/-! ### Runs -/

/-- **When only the child's end is announced.**  In a run every `childDisconnected` is that of a
connection authenticated before, exactly when the run is orderly at every event: no unauthenticated
client leaves, completes a first line other than the greeting with the nonce, or has more than 1024
bytes read before it is authenticated. -/
theorem ends_announced_iff (nonce : QByteArray) (expectedChildUid : UInt32)
    (decodeStats : QByteArray → Stats) (events : List HandoffEvent) :
    (∀ pre c post,
      (run (HandoffServer.step decodeStats) (.listening nonce expectedChildUid) events).2 =
        pre ++ .childDisconnected c :: post → .authenticated c ∈ pre) ↔
      EachStep (HandoffServer.step decodeStats) Orderly (.listening nonce expectedChildUid) events := by
  rw [← alwaysFrom_run_iff (Attends nonce decodeStats) (fun _ _ e h => step_attends h e)
    (fun _ _ e h => step_announced_iff h e) [] (listening_attends nonce expectedChildUid decodeStats)
    events, alwaysFrom_iff_split]
  constructor
  · intro h pre o post e
    cases o with
    | childDisconnected c => exact h pre c post e
    | accepted d | read d bytes | authenticated d | signal d sig | bye d | write d bytes => trivial
  · intro h pre c post e
    exact h pre _ post e

/-- A peer that connects and leaves without a word is announced as the child's end. -/
theorem stranger_announced :
    ¬ ∀ pre c post,
      (run (HandoffServer.step fun _ => ()) (.listening (ascii "deadbeef") 1000)
        [.connect (some 1000) [] (fun _ => []), .peerClosed 0]).2 =
        pre ++ .childDisconnected c :: post → .authenticated c ∈ pre := by
  intro h
  have := h [.accepted 0] 0 [] (by decide)
  simp at this

end Qiftop.Util
