import Qiftop.Lib.Run
import Qiftop.Qt.Text

/-!
# Util — the hand-over server

`util/HandoffServer.cpp`: the parent listens on a local socket for the privileged child.  One peer at
a time is the client; until its first line is `HELLO\t<nonce>` it is unauthenticated and may be
evicted by the next peer.  Lines of the authenticated client become signals, commands are written to
it, and an end of a client's connection is announced as `childDisconnected`.

Peers are numbered in the order they connect.  An event is what the sockets or the program bring:
a connection with its credentials and what it has sent already, bytes that can be read, the end of a
peer's connection, a command to send, data that has left the write buffer.

`QLocalSocket::disconnectFromServer` ends the connection at once, `disconnected` included, unless
data is still unwritten; then the socket reads no more and ends once the data is out (`closing`).
Slots connected to the signals may send commands from inside a signal (`react`).  Whether data stays
unwritten after a command is left open.  The decoder of `STATS` payloads is a parameter.
-/

namespace Qiftop.Util
open Qt Lib

/-! ### Lines -/

/-- The bytes of an ASCII text. -/
def ascii (s : String) : QByteArray := toLatin1 s.toList

/-- The first line of a buffer, without its line feed, and what follows. -/
def takeLine : QByteArray → Option (QByteArray × QByteArray)
  | [] => none
  | b :: buf => if b = lf then some ([], buf) else (takeLine buf).map fun r => (b :: r.1, r.2)

/-- A line and a line feed in front. -/
theorem takeLine_append {line : QByteArray} (h : lf ∉ line) (rest : QByteArray) :
    takeLine (line ++ lf :: rest) = some (line, rest) := by
  induction line with
  | nil => rfl
  | cons b line ih =>
      simp only [List.mem_cons, not_or] at h
      rw [List.cons_append, takeLine, if_neg (Ne.symm h.1), ih h.2]
      rfl

theorem takeLine_of_notMem {buf : QByteArray} (h : lf ∉ buf) : takeLine buf = none := by
  induction buf with
  | nil => rfl
  | cons b buf ih =>
      simp only [List.mem_cons, not_or] at h
      rw [takeLine, if_neg (Ne.symm h.1), ih h.2]
      rfl

/-- A buffer is its first line and what follows, or has no line feed. -/
theorem takeLine_cases (buf : QByteArray) :
    (∃ line rest, takeLine buf = some (line, rest) ∧ buf = line ++ lf :: rest ∧ lf ∉ line) ∨
      takeLine buf = none ∧ lf ∉ buf := by
  by_cases h : lf ∈ buf
  · obtain ⟨line, rest, rfl, hl⟩ := List.eq_append_cons_of_mem h
    exact .inl ⟨line, rest, takeLine_append hl rest, rfl, hl⟩
  · exact .inr ⟨takeLine_of_notMem h, h⟩

/-- The first line a child sends: `HELLO`, a tab and the nonce. -/
def isHello (nonce line : QByteArray) : Bool :=
  (ascii "HELLO\t").isPrefixOf line && trimmedBytes (line.drop 6) == nonce

/-- What stands before the first tab. -/
def verbOf (line : QByteArray) : QByteArray := line.takeWhile (· ≠ tab)

/-- What stands behind the first tab. -/
def payloadOf (line : QByteArray) : QByteArray := (line.dropWhile (· ≠ tab)).tail

/-- A command of the parent. -/
inductive Command where
  | show | pause (paused : Bool) | quit
  deriving DecidableEq, Repr

def Command.line : Command → QByteArray
  | .show => ascii "SHOW"
  | .pause paused => ascii "PAUSE\t" ++ (if paused then ascii "1" else ascii "0")
  | .quit => ascii "QUIT"

/-- A signal a line of the child is turned into. -/
inductive Signal (Stats : Type) where
  | childReady
  | childStats (stats : Stats)
  | childPauseState (paused : Bool)
  deriving DecidableEq, Repr

/-- What the server does that can be observed, with the connection it concerns. -/
inductive HandoffOutput (Stats : Type) where
  /-- The connection becomes the client. -/
  | accepted (c : ℕ)
  | read (c : ℕ) (bytes : QByteArray)
  | authenticated (c : ℕ)
  | signal (c : ℕ) (sig : Signal Stats)
  /-- The child said `BYE`. -/
  | bye (c : ℕ)
  | write (c : ℕ) (bytes : QByteArray)
  | childDisconnected (c : ℕ)
  deriving DecidableEq, Repr

/-- The commands slots send on a line, each with whether data stays unwritten. -/
abbrev Reactions := ℕ → List (Command × Bool)

structure HandoffServer where
  nonce : QByteArray
  expectedChildUid : UInt32 := 0
  client : Option ℕ := none
  /-- The client's socket waits for its unwritten data. -/
  closing : Bool := false
  unwritten : Bool := false
  readBuf : QByteArray := []
  authenticated : Bool := false
  /-- The number of the next connection. -/
  nextId : ℕ := 0

/-- An event of the sockets or of the program. -/
inductive HandoffEvent where
  /-- A connection, by a peer whose uid the credentials give, that has sent `initial`. -/
  | connect (peer : Option UInt32) (initial : QByteArray) (react : Reactions)
  /-- `readyRead`. -/
  | deliver (c : ℕ) (bytes : QByteArray) (react : Reactions)
  /-- The peer is gone. -/
  | peerClosed (c : ℕ)
  /-- A command, and whether data stays unwritten. -/
  | send (command : Command) (leftover : Bool)
  /-- The write buffer is empty. -/
  | written (c : ℕ)

section
variable {Stats : Type} (decodeStats : QByteArray → Stats)

/-- The signal of a line, if it has one. -/
def signalOf (line : QByteArray) : Option (Signal Stats) :=
  if verbOf line = ascii "READY" then some .childReady
  else if verbOf line = ascii "STATS" then some (.childStats (decodeStats (payloadOf line)))
  else if verbOf line = ascii "PAUSED" then
    some (.childPauseState (trimmedBytes (payloadOf line) == ascii "1"))
  else none

namespace HandoffServer

def kPreAuthCap : ℕ := 1024
def kPostAuthCap : ℕ := 1 * 1024 * 1024

def handleClientDisconnected (s : HandoffServer) (c : ℕ) :
    HandoffServer × List (HandoffOutput Stats) :=
  ({ s with client := none, closing := false, unwritten := false, authenticated := false, readBuf := [] },
    [.childDisconnected c])

/-- `disconnectFromServer` on the client's socket. -/
def disconnectFromServer (s : HandoffServer) (c : ℕ) : HandoffServer × List (HandoffOutput Stats) :=
  if s.unwritten then ({ s with closing := true }, []) else s.handleClientDisconnected c

def rejectClient (s : HandoffServer) (c : ℕ) : HandoffServer × List (HandoffOutput Stats) :=
  let r := if s.client.isSome then s.disconnectFromServer c else (s, [])
  ({ r.1 with readBuf := [] }, r.2)

def send (s : HandoffServer) (e : Command × Bool) : HandoffServer × List (HandoffOutput Stats) :=
  match s.client with
  | none => (s, [])
  | some c =>
      if !s.authenticated then (s, [])
      else ({ s with unwritten := e.2 }, [.write c (e.1.line ++ [lf])])

/-- `dispatch`, with what the slots send. -/
def dispatch (s : HandoffServer) (c : ℕ) (line : QByteArray) (react : List (Command × Bool)) :
    HandoffServer × List (HandoffOutput Stats) :=
  if line = [] then (s, [])
  else match signalOf decodeStats line with
    | some sig =>
        let r := run send s react
        (r.1, .signal c sig :: r.2)
    | none =>
        if verbOf line = ascii "BYE" then
          let r := if s.client.isSome then s.disconnectFromServer c else (s, [])
          (r.1, .bye c :: r.2)
        else (s, [])

/-- The loop over the lines in the buffer; the number of bytes bounds the number of lines. -/
def handleLines (c : ℕ) (react : Reactions) :
    ℕ → ℕ → HandoffServer → HandoffServer × List (HandoffOutput Stats)
  | 0, _, s => (s, [])
  | fuel + 1, k, s =>
      match takeLine s.readBuf with
      | none => (s, [])
      | some (line, rest) =>
          let s := { s with readBuf := rest }
          if !s.authenticated then
            if isHello s.nonce line then
              let r := handleLines c react fuel k { s with authenticated := true }
              (r.1, .authenticated c :: r.2)
            else s.rejectClient c
          else
            let d := s.dispatch decodeStats c line (react k)
            let r := handleLines c react fuel (k + 1) d.1
            (r.1, d.2 ++ r.2)

/-- `handleReadyRead` for the client `c`. -/
def handleReadyRead (s : HandoffServer) (c : ℕ) (bytes : QByteArray) (react : Reactions) :
    HandoffServer × List (HandoffOutput Stats) :=
  let s := { s with readBuf := s.readBuf ++ bytes }
  let r :=
    if !s.authenticated ∧ s.readBuf.length > kPreAuthCap then s.rejectClient c
    else if s.authenticated ∧ s.readBuf.length > kPostAuthCap then s.rejectClient c
    else s.handleLines decodeStats c react s.readBuf.length 0
  (r.1, .read c bytes :: r.2)

/-- Whether a peer's credentials pass. -/
def allowed (s : HandoffServer) (peer : Option UInt32) : Bool :=
  match peer with
  | none => false
  | some uid => uid == s.expectedChildUid || uid == 0

/-- The slot given to a new connection; an unauthenticated incumbent is evicted, its signals
disconnected first. -/
def accept (s : HandoffServer) (c : ℕ) : HandoffServer :=
  let s := if s.client.isSome then { s with client := none, readBuf := [] } else s
  { s with client := some c, authenticated := false, closing := false, unwritten := false }

/-- One round of `handleNewConnection`. -/
def handleNewConnection (s : HandoffServer) (peer : Option UInt32) (initial : QByteArray)
    (react : Reactions) : HandoffServer × List (HandoffOutput Stats) :=
  let c := s.nextId
  let s := { s with nextId := c + 1 }
  if !s.allowed peer then (s, [])
  else if s.client.isSome && s.authenticated then (s, [])
  else
    let s := s.accept c
    let r := if initial ≠ [] then s.handleReadyRead decodeStats c initial react else (s, [])
    (r.1, .accepted c :: r.2)

def step (s : HandoffServer) : HandoffEvent → HandoffServer × List (HandoffOutput Stats)
  | .connect peer initial react => s.handleNewConnection decodeStats peer initial react
  | .deliver c bytes react =>
      if s.client = some c ∧ !s.closing then s.handleReadyRead decodeStats c bytes react else (s, [])
  | .peerClosed c => if s.client = some c then s.handleClientDisconnected c else (s, [])
  | .send command leftover => s.send (command, leftover)
  | .written c =>
      if s.client = some c then
        if s.closing then s.handleClientDisconnected c else ({ s with unwritten := false }, [])
      else (s, [])

end HandoffServer
end

end Qiftop.Util
