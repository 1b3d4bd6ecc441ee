import Qiftop.Backend.BsdCapture

/-!
# Backend — packets and their replies

A packet and its reverse belong to one flow, whichever of their ends are this host's: where exactly one
is, that end is the flow's local one for both; otherwise the greater end is.  What one of them counts as
sent the other counts as received.

* `orient_swap`: the ends exchanged come to the same flow, seen the other way.
* `account_of_room`, `account_of_full`: a packet changes its own flow, or nothing but the warning when
  there is no room.
* `handlePacket_symmetric`: the two together, with the safety of every read.
-/

namespace Qiftop.Backend.Bsd
open Lib Qt

/-! ### Ends exchanged -/

/-- The same flow seen from the other packet. -/
def Oriented.flip (o : Oriented) : Oriented := { o with isTx := !o.isTx }

theorem orient_swap (ls ld : Bool) {src dst : Endpoint} (hpair : AddressPair src.address dst.address)
    (hne : src ≠ dst) : orient ld ls dst src = (orient ls ld src dst).flip := by
  have hgreater := endpointGreater_swap hpair.plainSrc hpair.plainDst hpair.family hne
  -- one local end decides by itself; two or none leave it to the order of the ends
  cases ls <;> cases ld <;> simp only [orient, Bool.not_true, Bool.not_false, Bool.and_true,
    Bool.and_false, Bool.and_self, if_true, Bool.false_eq_true, if_false, hgreater]
  case true.false => rfl
  case false.true => rfl
  all_goals
    cases endpointGreater src dst with
    | true => rfl
    | false => rfl

/-- A packet and one of the same protocol the other way. -/
structure Reverse (p p' : Packet) : Prop where
  proto : p'.proto = p.proto
  src : p'.src = p.dst
  dst : p'.dst = p.src

namespace BsdConnectionWorker
variable {s : BsdConnectionWorker} {h : CaptureHandle} {p p' : Packet}

theorem oriented_reverse (hpair : AddressPair p.src.address p.dst.address) (hne : p.src ≠ p.dst)
    (hrev : Reverse p p') : s.oriented p' = (s.oriented p).flip := by
  rw [oriented, oriented, hrev.src, hrev.dst]
  exact orient_swap _ _ hpair hne

theorem flowKey_reverse (hpair : AddressPair p.src.address p.dst.address) (hne : p.src ≠ p.dst)
    (hrev : Reverse p p') : s.flowKey p' = s.flowKey p := by
  rw [flowKey, flowKey, oriented_reverse hpair hne hrev, hrev.proto]
  rfl

/-! ### What a packet changes -/

/-- The flow a packet is added to, as it is before. -/
def recorded (s : BsdConnectionWorker) (h : CaptureHandle) (p : Packet) : FlowAcc :=
  (s.flows.lookup (s.flowKey p)).getD (s.newFlow h p)

variable (wireLen : UInt32) (now : Int)

/-- A packet of a known flow, or of a new one there is room for. -/
theorem account_of_room (hroom : ¬ (s.flowKey p ∉ s.flows ∧ s.Full)) :
    s.account h wireLen now p =
      { s with flows := s.flows.insert (s.flowKey p) (s.updated wireLen now (s.recorded h p) p) } := by
  rw [account, recorded]
  cases hlookup : s.flows.lookup (s.flowKey p) with
  | some acc => rfl
  | none =>
      have hnotFull : ¬ s.Full := fun hfull => hroom ⟨AList.lookup_eq_none.mp hlookup, hfull⟩
      dsimp only
      rw [if_neg hnotFull]
      rfl

theorem account_of_full (hfull : s.flowKey p ∉ s.flows ∧ s.Full) :
    s.account h wireLen now p = { s with flowCapWarned := true } := by
  rw [account, AList.lookup_eq_none.mpr hfull.1]
  exact if_pos hfull.2

end BsdConnectionWorker

/-- The wire length and one packet added on one side, to a flow that may be new. -/
structure Counted (isTx : Bool) (wireLen : UInt32) (before : Option FlowAcc) (after : FlowAcc) : Prop where
  txBytes : after.txBytes = before.elim 0 FlowAcc.txBytes + if isTx then wireLen.toUInt64 else 0
  rxBytes : after.rxBytes = before.elim 0 FlowAcc.rxBytes + if isTx then 0 else wireLen.toUInt64
  txPackets : after.txPackets = before.elim 0 FlowAcc.txPackets + if isTx then 1 else 0
  rxPackets : after.rxPackets = before.elim 0 FlowAcc.rxPackets + if isTx then 0 else 1

/-- Observing a direction counts nothing. -/
theorem Counted.observe {isTx : Bool} {wireLen : UInt32} {before : Option FlowAcc} {acc : FlowAcc}
    (hc : Counted isTx wireLen before acc) (syn ls ld : Bool) :
    Counted isTx wireLen before (acc.observe syn ls ld) := by
  rw [FlowAcc.observe]
  split
  · exact ⟨hc.txBytes, hc.rxBytes, hc.txPackets, hc.rxPackets⟩
  · exact hc

namespace BsdConnectionWorker
variable {s : BsdConnectionWorker} {h h' : CaptureHandle} {p p' : Packet}

theorem counted_updated (s : BsdConnectionWorker) (h : CaptureHandle) (p : Packet) (wireLen : UInt32)
    (now : Int) : Counted (s.oriented p).isTx wireLen (s.flows.lookup (s.flowKey p))
      (s.updated wireLen now (s.recorded h p) p) := by
  apply Counted.observe
  rw [recorded]
  cases s.flows.lookup (s.flowKey p) <;> cases (s.oriented p).isTx <;>
    constructor <;> simp [FlowAcc.count, newFlow]

/-- In every state with these addresses `handlePacket` adds the packet to the flow of `key`, on the side
`isTx` says, and changes no other flow; when there is no room for a new flow it only notes that it has
warned. -/
def AccountedTo (v6 : IPv6Text) (addrs : HostAddresses) (h : CaptureHandle) (w : Window) (key : QString)
    (isTx : Bool) : Prop :=
  ∀ (s : BsdConnectionWorker) (wireLen : UInt32) (now : Int), s.addrs = addrs →
    if key ∉ s.flows ∧ s.Full then
      s.handlePacket h wireLen now v6 w = .ok { s with flowCapWarned := true }
    else ∃ acc, s.handlePacket h wireLen now v6 w = .ok { s with flows := s.flows.insert key acc } ∧
      Counted isTx wireLen (s.flows.lookup key) acc

/-- A parsed packet is accounted, to the flow and on the side that the addresses give it. -/
theorem accountedTo_of_parse {v6 : IPv6Text} {w : Window} (addrs : HostAddresses)
    (hp : (parsePacket v6 w h.datalink).run = .ok (some p)) :
    AccountedTo v6 addrs h w (flowKey { addrs } p) (oriented { addrs } p).isTx := by
  rintro s wireLen now rfl
  have hkey : flowKey { addrs := s.addrs } p = s.flowKey p := rfl
  rw [hkey, handlePacket_some wireLen now hp]
  split
  · next hfull => rw [account_of_full wireLen now hfull]
  · next hroom =>
      rw [account_of_room wireLen now hroom]
      exact ⟨_, rfl, counted_updated s h p wireLen now⟩

/-- **Accounting is safe and symmetric**: `handlePacket` reads no byte past the captured ones, and a
packet and its reverse are counted in one flow, one as sent and the other as received. -/
theorem handlePacket_symmetric (v6 : IPv6Text) :
    (∀ (s : BsdConnectionWorker) (h : CaptureHandle) (w : Window) (wireLen : UInt32) (now : Int),
      ∃ s', s.handlePacket h wireLen now v6 w = .ok s') ∧
    ∀ (addrs : HostAddresses) (h h' : CaptureHandle) (w w' : Window) (p p' : Packet),
      (parsePacket v6 w h.datalink).run = .ok (some p) →
      (parsePacket v6 w' h'.datalink).run = .ok (some p') → Reverse p p' → p.src ≠ p.dst →
      ∃ key isTx, AccountedTo v6 addrs h w key isTx ∧ AccountedTo v6 addrs h' w' key (!isTx) := by
  refine ⟨fun s h w wireLen now => handlePacket_ok wireLen now s h v6 w, ?_⟩
  intro addrs h h' w w' p p' hp hp' hrev hne
  obtain ⟨q, hrun, hpair⟩ := parsePacket_yields v6 (w := w) h.datalink
  rw [hp] at hrun
  injection hrun with hrun
  have hpair := hpair p hrun.symm
  have haccounted := accountedTo_of_parse addrs hp'
  rw [flowKey_reverse hpair hne hrev, oriented_reverse hpair hne hrev] at haccounted
  exact ⟨_, _, accountedTo_of_parse addrs hp, haccounted⟩

/-- A capture without link-layer headers. -/
def rawCapture : CaptureHandle := ⟨.other, "tun0".toList, 1⟩

/-- A UDP packet between ports 4660 and 53. -/
def udpQuery : Window where
  buffer := [0x45, 0, 0, 28, 0, 0, 0, 0, 64, 17, 0, 0, 10, 0, 0, 1, 10, 0, 0, 2, 18, 52, 0, 53, 0, 8, 0, 0]
  size := 28
  le := le_rfl

def udpReply : Window where
  buffer := [0x45, 0, 0, 28, 0, 0, 0, 0, 64, 17, 0, 0, 10, 0, 0, 2, 10, 0, 0, 1, 0, 53, 18, 52, 0, 8, 0, 0]
  size := 28
  le := le_rfl

theorem handlePacket_symmetric_udp : ∃ key isTx, AccountedTo .decimal {} rawCapture udpQuery key isTx ∧
    AccountedTo .decimal {} rawCapture udpReply key (!isTx) := by
  have hend : (⟨ipv4Address 0x0A000001, 4660⟩ : Endpoint) ≠ ⟨ipv4Address 0x0A000002, 53⟩ := by
    intro h
    injection h with _ hport
    exact absurd hport (by decide)
  exact (handlePacket_symmetric .decimal).2 {} rawCapture rawCapture udpQuery udpReply
    ⟨.Udp, ⟨ipv4Address 0x0A000001, 4660⟩, ⟨ipv4Address 0x0A000002, 53⟩, false⟩
    ⟨.Udp, ⟨ipv4Address 0x0A000002, 53⟩, ⟨ipv4Address 0x0A000001, 4660⟩, false⟩ rfl rfl ⟨rfl, rfl, rfl⟩ hend

end BsdConnectionWorker

end Qiftop.Backend.Bsd
