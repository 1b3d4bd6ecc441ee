import Qiftop.Backend.SockDiagDump

/-!
# Backend — the walk over a chunk

The messages of a chunk, in terms of its bytes and the natural numbers only: each begins where the one
before it ended, rounded up to four, has a header of 16 bytes and a length that its header states and
the chunk can hold.  `outcome` is what these messages come to.

`parseLoop_eq_outcome`: the loop, with the machine words of its lengths, reads no byte outside the
chunk, comes to an end and does what `outcome` says.  The invariant of the loop is that `remaining` is
the number of bytes from the current message to the end of the chunk; it may become negative, by less
than four, when the last length is rounded up.
-/

namespace Qiftop.Backend.SockDiag
open Lib

/-! ### The messages of a chunk -/

structure Message where
  offset : ℕ
  len : ℕ
  type : UInt16
  deriving DecidableEq, Repr

section Messages
variable (host : ByteOrder) (buf : Window)

/-- The messages from an offset on. -/
def messagesFrom (offset : ℕ) : List Message :=
  if h : offset + 16 ≤ buf.size ∧ 16 ≤ buf.numberAt host offset 4 ∧
      offset + buf.numberAt host offset 4 ≤ buf.size then
    { offset, len := buf.numberAt host offset 4
      type := UInt16.ofNat (buf.numberAt host (offset + 4) 2) } ::
      messagesFrom (offset + (buf.numberAt host offset 4 + 3) / 4 * 4)
  else []
termination_by buf.size - offset
decreasing_by omega

def messages : List Message := messagesFrom host buf 0

/-- The code of an error message. -/
def Message.error (m : Message) : Int32 :=
  (UInt32.ofNat (buf.numberAt host (m.offset + 16) 4)).toInt32

/-- How a message ends the dump, if it does: with its result and the error number. -/
def Message.verdict (m : Message) : Option (DumpChunkResult × Int32) :=
  if m.type = NLMSG_DONE then some (.Done, 0)
  else if m.type = NLMSG_ERROR then
    if m.len < 36 then some (.Failed, 0)
    else if m.error host buf = 0 then some (.Done, 0) else some (.Failed, -m.error host buf)
  else none

/-- The socket diagnostics at an offset. -/
def diagAt (offset : ℕ) : InetDiagMsg where
  family := UInt8.ofNat (ofBigEndian (buf.peek offset 1))
  sport := UInt16.ofNat (buf.numberAt .big (offset + 4) 2)
  dport := UInt16.ofNat (buf.numberAt .big (offset + 6) 2)
  src := buf.peek (offset + 8) 16
  dst := buf.peek (offset + 24) 16
  inode := UInt32.ofNat (buf.numberAt host (offset + 68) 4)

/-- The socket a message is about. -/
def Message.socket (m : Message) : Option InetDiagMsg :=
  if m.type = SOCK_DIAG_BY_FAMILY ∧ 88 ≤ m.len then some (diagAt host buf (m.offset + 16)) else none

/-- What messages come to. -/
def outcome (proto : UInt8) : List Message → SocketTable → ParsedChunk
  | [], outMap => ⟨.NeedMore, 0, outMap⟩
  | m :: ms, outMap =>
      match m.verdict host buf with
      | some (result, nlErrno) => ⟨result, nlErrno, outMap⟩
      | none => outcome proto ms ((m.socket host buf).elim outMap (indexSocket proto outMap))

/-- The sockets of a chunk: those of the messages before the one that ends the dump. -/
def sockets : List InetDiagMsg :=
  ((messages host buf).takeWhile fun m => (m.verdict host buf).isNone).filterMap (Message.socket host buf)

end Messages

/-! ### What is read of a message -/

section Read
variable {host : ByteOrder} {buf : Window} {offset : ℕ}

theorem readInetDiagMsg_eq_ok (h : offset + 72 ≤ buf.size) :
    readInetDiagMsg host buf offset = .ok (diagAt host buf offset) := by
  have hfamily : buf.uint8 offset = .ok (diagAt host buf offset).family :=
    Window.read_eq_ok (by omega) _
  have hsport : buf.uint16 .big (offset + 4) = .ok (diagAt host buf offset).sport :=
    Window.uint16_eq_ok (by omega) _
  have hdport : buf.uint16 .big (offset + 6) = .ok (diagAt host buf offset).dport :=
    Window.uint16_eq_ok (by omega) _
  have hsrc : buf.read (offset + 8) 16 id = .ok (diagAt host buf offset).src :=
    Window.read_eq_ok (by omega) _
  have hdst : buf.read (offset + 24) 16 id = .ok (diagAt host buf offset).dst :=
    Window.read_eq_ok (by omega) _
  have hinode : buf.uint32 host (offset + 68) = .ok (diagAt host buf offset).inode :=
    Window.uint32_eq_ok (by omega) _
  rw [readInetDiagMsg, hfamily, hsport, hdport, hsrc, hdst, hinode]
  rfl

/-- A message that lies in the chunk is handled without a fault. -/
theorem parseMessage_eq_ok {m : Message} (proto : UInt8) (outMap : SocketTable)
    (hlen : buf.numberAt host m.offset 4 = m.len)
    (htype : UInt16.ofNat (buf.numberAt host (m.offset + 4) 2) = m.type) (h16 : 16 ≤ m.len)
    (hend : m.offset + m.len ≤ buf.size) :
    parseMessage host buf proto outMap m.offset = .ok
      (match m.verdict host buf with
      | some (result, nlErrno) => .stop result nlErrno
      | none => .next ((m.socket host buf).elim outMap (indexSocket proto outMap))) := by
  have hlen' : (UInt32.ofNat (buf.numberAt host m.offset 4)).toNat = m.len :=
    (Window.toNat_uint32 ..).trans hlen
  rw [parseMessage, Window.uint32_eq_ok (by omega), Window.uint16_eq_ok (by omega), htype]
  dsimp only [bind, Except.bind]
  rw [hlen']
  unfold Message.verdict Message.socket NLMSG_LENGTH sizeofNlmsgerr sizeofInetDiagMsg nlmsgHdrlen
  -- branch by branch as in the source; every read is inside of the message
  by_cases hdone : m.type = NLMSG_DONE
  · rw [if_pos hdone, if_pos hdone]
    rfl
  · rw [if_neg hdone, if_neg hdone]
    by_cases herror : m.type = NLMSG_ERROR
    · rw [if_pos herror, if_pos herror]
      by_cases hshort : m.len < 36
      · rw [if_pos hshort, if_pos hshort]
        rfl
      · rw [if_neg hshort, if_neg hshort, Window.uint32_eq_ok (by omega)]
        dsimp only
        change (if m.error host buf ≠ 0 then _ else _) = _
        by_cases hack : m.error host buf = 0
        · rw [if_neg (not_not.mpr hack), if_pos hack]
          rfl
        · rw [if_pos hack, if_neg hack]
          rfl
    · rw [if_neg herror, if_neg herror]
      by_cases hdiag : m.type = SOCK_DIAG_BY_FAMILY
      · rw [if_neg (not_not.mpr hdiag)]
        by_cases hshort : m.len < 88
        · rw [if_pos hshort, if_neg fun h => absurd h.2 (by omega)]
          rfl
        · rw [if_neg hshort, readInetDiagMsg_eq_ok (by omega), if_pos ⟨hdiag, by omega⟩]
          rfl
      · rw [if_pos hdiag, if_neg fun h => hdiag h.1]
        rfl

end Read

/-! ### The loop -/

/-- `remaining` after a message that fits. -/
theorem toInt_nlmsgRest {remaining : Int32} {len : UInt32} (hle : (len.toNat : Int) ≤ remaining.toInt) :
    (nlmsgRest remaining len).toInt = remaining.toInt - ((len.toNat + 3) / 4 * 4 : ℕ) := by
  have hremaining := int32_toInt_eq remaining
  have hlt := remaining.toUInt32.toNat_lt
  have halign : (alignUp len).toNat = (len.toNat + 3) / 4 * 4 :=
    alignUp_toNat (by split at hremaining <;> omega)
  have hrest : (nlmsgRest remaining len).toUInt32 = remaining.toUInt32 - alignUp len := rfl
  rw [int32_toInt_eq, hrest, UInt32.toNat_sub, halign]
  split at hremaining <;> split <;> omega

section Loop
variable {host : ByteOrder} {buf : Window} {offset : ℕ} {remaining : Int32}

/-- `NLMSG_OK` says whether there is a message at the offset. -/
theorem nlmsgOk_eq_ok (hrest : remaining.toInt = (buf.size : Int) - offset) :
    NLMSG_OK host buf offset remaining = .ok (decide (offset + 16 ≤ buf.size ∧
      16 ≤ buf.numberAt host offset 4 ∧ offset + buf.numberAt host offset 4 ≤ buf.size)) := by
  have h16 : (16 : Int32).toInt = 16 := rfl
  unfold NLMSG_OK
  by_cases hshort : remaining < 16
  · rw [if_pos hshort]
    rw [Int32.lt_iff_toInt_lt, h16] at hshort
    rw [decide_eq_false (by omega)]
  · rw [if_neg hshort]
    rw [Int32.lt_iff_toInt_lt, h16] at hshort
    have hremaining := int32_toInt_eq remaining
    have hlt := remaining.toUInt32.toNat_lt
    rw [Window.uint32_eq_ok (by omega)]
    dsimp only [bind, Except.bind, pure, Except.pure]
    rw [← Bool.decide_and]
    refine congrArg Except.ok (decide_eq_decide.mpr ?_)
    have hsixteen : (16 : UInt32).toNat = 16 := rfl
    rw [UInt32.le_iff_toNat_le, UInt32.le_iff_toNat_le, Window.toNat_uint32, hsixteen]
    split at hremaining <;> omega

/-- **The loop does what the messages say**, whatever the bytes are. -/
theorem parseLoop_eq_outcome (hsize : buf.size < 2 ^ 31) (proto : UInt8) {fuel : ℕ}
    (hfuel : buf.size - offset < fuel) (hrest : remaining.toInt = (buf.size : Int) - offset)
    (outMap : SocketTable) :
    parseLoop host buf proto fuel offset remaining outMap =
      .ok (outcome host buf proto (messagesFrom host buf offset) outMap) := by
  induction fuel generalizing offset remaining outMap with
  | zero => exact absurd hfuel (Nat.not_lt_zero _)
  | succ fuel ih =>
      rw [parseLoop, nlmsgOk_eq_ok hrest, messagesFrom]
      dsimp only [bind, Except.bind]
      by_cases hmsg : offset + 16 ≤ buf.size ∧ 16 ≤ buf.numberAt host offset 4 ∧
          offset + buf.numberAt host offset 4 ≤ buf.size
      · have hlen := Window.toNat_uint32 buf host offset
        have hparse := parseMessage_eq_ok (m := ⟨offset, buf.numberAt host offset 4,
          UInt16.ofNat (buf.numberAt host (offset + 4) 2)⟩) proto outMap rfl rfl hmsg.2.1 hmsg.2.2
        dsimp only at hparse
        rw [decide_eq_true hmsg, if_pos rfl, dif_pos hmsg, outcome, hparse]
        cases Message.verdict host buf _ with
        | some verdict => rfl
        | none =>
            have hfits : ((UInt32.ofNat (buf.numberAt host offset 4)).toNat : Int) ≤ remaining.toInt := by
              omega
            have halign : (alignUp (UInt32.ofNat (buf.numberAt host offset 4))).toNat =
                (buf.numberAt host offset 4 + 3) / 4 * 4 := by
              rw [alignUp_toNat (by omega), hlen]
            dsimp only
            rw [Window.uint32_eq_ok (by omega)]
            dsimp only
            rw [halign]
            refine ih (by omega) ?_ _
            -- the padding of the last message may take `remaining` below zero
            rw [toInt_nlmsgRest hfits, hlen, hrest]
            omega
      · rw [decide_eq_false hmsg, dif_neg hmsg]
        rfl

end Loop

/-! ### What comes out of a chunk -/

/-- Done and error messages end a dump. -/
def Message.ends (m : Message) : Bool := decide (m.type = NLMSG_DONE ∨ m.type = NLMSG_ERROR)

section Chunk
variable (host : ByteOrder) (buf : Window)

/-- An acknowledgement ends a dump well, and so does the done message. -/
theorem verdict_of_ends {m : Message} (h : m.ends = true) :
    (m.verdict host buf).map Prod.fst =
      some (if m.type = NLMSG_DONE ∨ NLMSG_LENGTH sizeofNlmsgerr ≤ m.len ∧ m.error host buf = 0
        then .Done else .Failed) := by
  have hlength : NLMSG_LENGTH sizeofNlmsgerr = 36 := rfl
  rw [hlength]
  unfold Message.verdict
  by_cases hdone : m.type = NLMSG_DONE
  · rw [if_pos hdone, if_pos (.inl hdone)]
    rfl
  · have herror : m.type = NLMSG_ERROR := (of_decide_eq_true h).resolve_left hdone
    rw [if_neg hdone, if_pos herror]
    by_cases hshort : m.len < 36
    · rw [if_pos hshort, if_neg]
      · rfl
      · rintro (h | h)
        · exact hdone h
        · omega
    · rw [if_neg hshort]
      by_cases hack : m.error host buf = 0
      · rw [if_pos hack, if_pos (.inr ⟨not_lt.mp hshort, hack⟩)]
        rfl
      · rw [if_neg hack, if_neg]
        · rfl
        · rintro (h | h)
          · exact hdone h
          · exact hack h.2

theorem verdict_of_not_ends {m : Message} (h : m.ends = false) : m.verdict host buf = none := by
  have hneither := of_decide_eq_false h
  rw [Message.verdict, if_neg fun e => hneither (.inl e), if_neg fun e => hneither (.inr e)]

/-- The result is that of the first message that ends the dump. -/
theorem outcome_result (proto : UInt8) (ms : List Message) (outMap : SocketTable) :
    (outcome host buf proto ms outMap).result =
      match ms.find? Message.ends with
      | none => .NeedMore
      | some m =>
          if m.type = NLMSG_DONE ∨ NLMSG_LENGTH sizeofNlmsgerr ≤ m.len ∧ m.error host buf = 0
          then .Done else .Failed := by
  induction ms generalizing outMap with
  | nil => rfl
  | cons m ms ih =>
      rw [outcome, List.find?_cons]
      cases hends : m.ends with
      | false =>
          rw [verdict_of_not_ends host buf hends]
          exact ih _
      | true =>
          obtain ⟨verdict, hverdict, hresult⟩ :=
            Option.map_eq_some_iff.mp (verdict_of_ends host buf hends)
          rw [hverdict]
          exact hresult

/-- The table takes in the sockets of the messages before that one. -/
theorem outcome_outMap (proto : UInt8) (ms : List Message) (outMap : SocketTable) :
    (outcome host buf proto ms outMap).outMap =
      ((ms.takeWhile fun m => (m.verdict host buf).isNone).filterMap (Message.socket host buf)).foldl
        (indexSocket proto) outMap := by
  induction ms generalizing outMap with
  | nil => rfl
  | cons m ms ih =>
      rw [outcome]
      cases hverdict : m.verdict host buf with
      | some verdict =>
          rw [List.takeWhile_cons_of_neg (by rw [hverdict]; simp)]
          rfl
      | none =>
          rw [List.takeWhile_cons_of_pos (by rw [hverdict]; rfl), List.filterMap_cons]
          dsimp only
          rw [ih]
          cases m.socket host buf <;> rfl

theorem parseDumpChunk_eq_outcome (hsize : buf.size < 2 ^ 31) (proto : UInt8) (outMap : SocketTable)
    {fuel : ℕ} (hfuel : buf.size < fuel) :
    parseDumpChunk host buf proto outMap fuel =
      .ok (outcome host buf proto (messages host buf) outMap) := by
  refine parseLoop_eq_outcome hsize proto (by omega) ?_ outMap
  rw [Int32.toInt_ofNat_of_lt hsize]
  omega

/-- **The parser is safe and ends.**  For every buffer, every length up to its size and below `2 ^ 31`
and every table within the bound: the loop ends, without a read outside the window, the table stays
within the bound, and the first done or error message that the walk reaches decides the result. -/
theorem parseDumpChunk_safe (hsize : buf.size < 2 ^ 31) (proto : UInt8) (outMap : SocketTable)
    (fuel : ℕ) (hfuel : buf.size < fuel) :
    ∃ parsed, parseDumpChunk host buf proto outMap fuel = .ok parsed ∧
      parsed.outMap.size ≤ kMaxSocketEntries ∧
      parsed.result =
        match (messages host buf).find? Message.ends with
        | none => .NeedMore
        | some m =>
            if m.type = NLMSG_DONE ∨ NLMSG_LENGTH sizeofNlmsgerr ≤ m.len ∧ m.error host buf = 0
            then .Done else .Failed :=
  ⟨_, parseDumpChunk_eq_outcome host buf hsize proto outMap hfuel, SocketTable.bounded _,
    outcome_result host buf proto _ outMap⟩

end Chunk

/-- A header that claims more than the chunk holds. -/
def hugeMessage : Window where
  buffer := [255, 255, 255, 255, 2, 0, 0, 0, 0, 0, 0, 0, 0, 0, 0, 0, 243, 255, 255, 255]
  size := 20
  le := le_rfl

theorem hugeMessage_safe :
    hugeMessage.size < 2 ^ 31 ∧ ∃ parsed, parseDumpChunk .little hugeMessage 6 {} 21 = .ok parsed ∧
      parsed.outMap.size ≤ kMaxSocketEntries ∧
      parsed.result =
        match (messages .little hugeMessage).find? Message.ends with
        | none => .NeedMore
        | some m =>
            if m.type = NLMSG_DONE ∨ NLMSG_LENGTH sizeofNlmsgerr ≤ m.len ∧
              m.error .little hugeMessage = 0
            then .Done else .Failed :=
  ⟨by decide, parseDumpChunk_safe .little hugeMessage (by decide) 6 {} 21 (by decide)⟩

end Qiftop.Backend.SockDiag
