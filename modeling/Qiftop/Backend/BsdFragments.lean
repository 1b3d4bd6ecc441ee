import Qiftop.Backend.BsdAccounting

/-!
# Backend — fragments of a datagram

A fragment of an IPv4 datagram other than the first has no transport header: what follows its IP header
is payload.  `handlePacket` does not look at the fragment offset and reads ports and flags there all the
same.

* `parsePacket_v4`: what is read of an IPv4 packet.
* `flowKey_eq_iff`: when two packets between the same addresses have one key.
* `laterFragments_iff`: two later fragments that differ only in their payload are accounted alike exactly
  when the bytes that are taken for ports and flags agree, or are not looked at.
-/

namespace Qiftop.Backend.Bsd
open Lib Qt

/-! ### The header of an IPv4 packet -/

section Header
variable (w : Window) (off : ℕ)

def byteAt (i : ℕ) : UInt8 := UInt8.ofNat (ofBigEndian (w.peek i 1))

def portAt (i : ℕ) : UInt16 := UInt16.ofNat (w.numberAt .big i 2)

def addressAt (i : ℕ) : UInt32 := UInt32.ofNat (w.numberAt .big i 4)

/-- The length of the header at `off`. -/
def headerLength : ℕ := (byteAt w off &&& 0x0F).toNat * 4

/-- The fragment offset of the header at `off`, in units of eight bytes. -/
def fragmentOffset : ℕ := w.numberAt .big (off + 6) 2 % 8192

/-- A whole IPv4 header was captured at `off`. -/
structure IPv4Header : Prop where
  version : byteAt w off >>> 4 = 4
  length : 20 ≤ headerLength w off
  captured : off + headerLength w off ≤ w.size

/-- The protocol of the packet. -/
def ipv4Proto : L4Proto := protoFromIp (byteAt w (off + 9))

/-- What is read of the packet. -/
def ipv4Packet : Packet :=
  let proto := ipv4Proto w off
  let l4off := off + headerLength w off
  let ports := if (proto = .Tcp ∨ proto = .Udp) ∧ l4off + 4 ≤ w.size then
    (portAt w l4off, portAt w (l4off + 2)) else (0, 0)
  { proto
    src := ⟨ipv4Address (addressAt w (off + 12)), ports.1⟩
    dst := ⟨ipv4Address (addressAt w (off + 16)), ports.2⟩
    pureSyn := decide (proto = .Tcp ∧ l4off + 14 ≤ w.size) && isPureSyn (byteAt w (l4off + 13)) }

variable {w off}

theorem parseIp_v4 (v6 : IPv6Text) (h : IPv4Header w off) : (parseIp v6 w off).run =
    .ok (some ⟨byteAt w (off + 9), ipv4Address (addressAt w (off + 12)),
      ipv4Address (addressAt w (off + 16)), off + headerLength w off⟩) := by
  have hlength := h.length
  have hcaptured := h.captured
  have hroom : headerLength w off ≤ w.size - off := by omega
  have hread : ∀ {i : ℕ}, i + 1 ≤ w.size → w.uint8 i = .ok (byteAt w i) := fun hi =>
    w.read_eq_ok hi _
  rw [parseIp, Dissector.run_bind_some (Dissector.run_lift (hread (by omega)))]
  dsimp only
  rw [if_pos h.version, Dissector.run_bind_some (Dissector.run_guard (by omega)),
    Dissector.run_bind_some (Dissector.run_guard ⟨hlength, hroom⟩),
    Dissector.run_bind_some (Dissector.run_lift (hread (by omega))),
    Dissector.run_bind_some (Dissector.run_lift (Window.uint32_eq_ok (by omega) _)),
    Dissector.run_bind_some (Dissector.run_lift (Window.uint32_eq_ok (by omega) _))]
  rfl

theorem parsePacket_v4 (v6 : IPv6Text) {datalink : LinkType}
    (hoff : (ipOffset w datalink).run = .ok (some off)) (h : IPv4Header w off) :
    (parsePacket v6 w datalink).run = .ok (some (ipv4Packet w off)) := by
  have hlength := h.length
  have hcaptured := h.captured
  rw [parsePacket, Dissector.run_bind_some hoff, Dissector.run_bind_some (Dissector.run_guard (by omega)),
    Dissector.run_bind_some (parseIp_v4 v6 h)]
  dsimp only
  rw [Dissector.run_bind_some (Dissector.run_lift (packetPorts_eq _ _)),
    Dissector.run_bind_some (Dissector.run_lift (pureSyn_eq _ _))]
  rfl

end Header

/-! ### Packets of one key -/

theorem orient_cases (ls ld : Bool) (src dst : Endpoint) :
    ((orient ls ld src dst).local = src ∧ (orient ls ld src dst).remote = dst) ∨
      ((orient ls ld src dst).local = dst ∧ (orient ls ld src dst).remote = src) := by
  rw [orient]
  split
  · exact .inl ⟨rfl, rfl⟩
  · split
    · exact .inr ⟨rfl, rfl⟩
    · split
      · exact .inl ⟨rfl, rfl⟩
      · exact .inr ⟨rfl, rfl⟩

/-- Two packets of one protocol from one address to another. -/
structure SameAddresses (p q : Packet) : Prop where
  proto : q.proto = p.proto
  src : q.src.address = p.src.address
  dst : q.dst.address = p.dst.address

/-- The ports agree, or they are exchanged and the addresses do not tell the ends apart. -/
def SamePorts (p q : Packet) : Prop :=
  (p.src.port = q.src.port ∧ p.dst.port = q.dst.port) ∨
    (p.src.address = p.dst.address ∧ p.src.port = q.dst.port ∧ p.dst.port = q.src.port)

instance (p q : Packet) : Decidable (SamePorts p q) := inferInstanceAs (Decidable (_ ∨ _))

namespace BsdConnectionWorker
variable {s : BsdConnectionWorker} {p q : Packet}

/-- What holds of both ends holds of them as the worker sees them. -/
theorem oriented_forall {P : Endpoint → Prop} (hsrc : P p.src) (hdst : P p.dst) :
    P (s.oriented p).local ∧ P (s.oriented p).remote := by
  rw [oriented]
  rcases orient_cases (s.addrs.isLocal p.src.address) (s.addrs.isLocal p.dst.address) p.src p.dst with
    ⟨hl, hr⟩ | ⟨hl, hr⟩ <;> rw [hl, hr]
  · exact ⟨hsrc, hdst⟩
  · exact ⟨hdst, hsrc⟩

/-- Packets of one key have the same ends. -/
theorem oriented_eq_of_flowKey (hpair : AddressPair p.src.address p.dst.address) (hsame : SameAddresses p q)
    (hkey : s.flowKey p = s.flowKey q) :
    (s.oriented p).local = (s.oriented q).local ∧ (s.oriented p).remote = (s.oriented q).remote := by
  have hqsrc : AddressPair p.src.address q.src.address := by
    rw [hsame.src]
    exact ⟨hpair.plainSrc, hpair.plainSrc, rfl⟩
  have hqdst : AddressPair p.src.address q.dst.address := by
    rw [hsame.dst]
    exact hpair
  obtain ⟨hpl, hpr⟩ := oriented_forall (s := s) (p := p) (P := fun e => AddressPair p.src.address e.address)
    ⟨hpair.plainSrc, hpair.plainSrc, rfl⟩ hpair
  obtain ⟨hql, hqr⟩ := oriented_forall (s := s) (p := q) (P := fun e => AddressPair p.src.address e.address)
    hqsrc hqdst
  obtain ⟨-, hl, hlport, hr, hrport⟩ :=
    flowKeyExact_inj hpl.plainDst hpr.plainDst hql.plainDst hqr.plainDst hkey
  exact ⟨endpoint_eq (hpl.family.symm.trans hql.family) hl hlport,
    endpoint_eq (hpr.family.symm.trans hqr.family) hr hrport⟩

theorem samePorts_of_flowKey (hpair : AddressPair p.src.address p.dst.address) (hsame : SameAddresses p q)
    (hkey : s.flowKey p = s.flowKey q) : SamePorts p q := by
  obtain ⟨hl, hr⟩ := oriented_eq_of_flowKey hpair hsame hkey
  rw [oriented, oriented] at hl hr
  rcases orient_cases (s.addrs.isLocal p.src.address) (s.addrs.isLocal p.dst.address) p.src p.dst with
    ⟨hpl, hpr⟩ | ⟨hpl, hpr⟩ <;>
    rcases orient_cases (s.addrs.isLocal q.src.address) (s.addrs.isLocal q.dst.address) q.src q.dst with
      ⟨hql, hqr⟩ | ⟨hql, hqr⟩ <;>
    rw [hpl, hql] at hl <;> rw [hpr, hqr] at hr
  · exact .inl ⟨congrArg Endpoint.port hl, congrArg Endpoint.port hr⟩
  · exact .inr ⟨(congrArg Endpoint.address hl).trans hsame.dst, congrArg Endpoint.port hl,
      congrArg Endpoint.port hr⟩
  · exact .inr ⟨(congrArg Endpoint.address hr).trans hsame.dst, congrArg Endpoint.port hr,
      congrArg Endpoint.port hl⟩
  · exact .inl ⟨congrArg Endpoint.port hr, congrArg Endpoint.port hl⟩

theorem flowKey_of_samePorts (hpair : AddressPair p.src.address p.dst.address) (hsame : SameAddresses p q)
    (hports : SamePorts p q) : s.flowKey p = s.flowKey q := by
  rcases hports with ⟨hsrc, hdst⟩ | ⟨haddress, hsrc, hdst⟩
  · have hs : q.src = p.src := endpoint_eq (congrArg _ hsame.src) (congrArg _ hsame.src) hsrc.symm
    have hd : q.dst = p.dst := endpoint_eq (congrArg _ hsame.dst) (congrArg _ hsame.dst) hdst.symm
    rw [flowKey, flowKey, oriented, oriented, hs, hd, hsame.proto]
  · -- ends of one address that exchange their ports are each other's reverse
    have hs : q.src = p.dst := endpoint_eq (congrArg _ (hsame.src.trans haddress))
      (congrArg _ (hsame.src.trans haddress)) hdst.symm
    have hd : q.dst = p.src := endpoint_eq (congrArg _ (hsame.dst.trans haddress.symm))
      (congrArg _ (hsame.dst.trans haddress.symm)) hsrc.symm
    by_cases hends : p.src = p.dst
    · rw [flowKey, flowKey, oriented, oriented, hs, hd, hsame.proto, hends]
    · exact (flowKey_reverse hpair hends ⟨hsame.proto, hs, hd⟩).symm

theorem flowKey_eq_iff (hpair : AddressPair p.src.address p.dst.address) (hsame : SameAddresses p q) :
    s.flowKey p = s.flowKey q ↔ SamePorts p q :=
  ⟨samePorts_of_flowKey hpair hsame, flowKey_of_samePorts hpair hsame⟩

theorem observedDir_updated (acc : FlowAcc) (wireLen : UInt32) (now : Int) :
    (s.updated wireLen now acc p).observedDir =
      if p.pureSyn && s.addrs.isLocal p.src.address != s.addrs.isLocal p.dst.address then
        (if s.addrs.isLocal p.src.address then .Outbound else .Inbound)
      else acc.observedDir := by
  have hcount : (acc.count (s.oriented p).isTx wireLen).observedDir = acc.observedDir := by
    rw [FlowAcc.count]
    split <;> rfl
  rw [updated, FlowAcc.observe]
  dsimp only
  split
  · rfl
  · exact hcount

/-- In every state with these addresses and with room both packets are added to one flow, and they leave
it the same direction. -/
def SameFlow (v6 : IPv6Text) (addrs : HostAddresses) (h : CaptureHandle) (w₁ w₂ : Window) : Prop :=
  ∀ (s : BsdConnectionWorker) (wireLen : UInt32) (now : Int), s.addrs = addrs → ¬ s.Full →
    ∃ key a₁ a₂, s.handlePacket h wireLen now v6 w₁ = .ok { s with flows := s.flows.insert key a₁ } ∧
      s.handlePacket h wireLen now v6 w₂ = .ok { s with flows := s.flows.insert key a₂ } ∧
      a₁.observedDir = a₂.observedDir

theorem handlePacket_of_room {v6 : IPv6Text} {h : CaptureHandle} {w : Window} (wireLen : UInt32) (now : Int)
    (hp : (parsePacket v6 w h.datalink).run = .ok (some p)) (hroom : ¬ s.Full) :
    s.handlePacket h wireLen now v6 w =
      .ok { s with flows := s.flows.insert (s.flowKey p) (s.updated wireLen now (s.recorded h p) p) } := by
  rw [handlePacket_some wireLen now hp, account_of_room wireLen now fun hfull => hroom hfull.2]

/-- The direction of a flow that two packets belong to, before either. -/
theorem observedDir_recorded (h : CaptureHandle) (hkey : s.flowKey p = s.flowKey q) :
    (s.recorded h p).observedDir = (s.recorded h q).observedDir := by
  rw [recorded, recorded, hkey]
  cases s.flows.lookup (s.flowKey q) with
  | none => rfl
  | some acc => rfl

theorem insert_empty_inj {key key' : QString} {a a' : FlowAcc}
    (h : (∅ : Hash QString FlowAcc).insert key a = (∅ : Hash QString FlowAcc).insert key' a') :
    key = key' ∧ a = a' := by
  have hentries := congrArg AList.entries h
  rw [AList.entries_insert, AList.entries_insert] at hentries
  injection hentries with hentry _
  injection hentry with hkey ha
  exact ⟨hkey, ha⟩

/-- The direction of a new flow shows whether its packet was a SYN without ACK. -/
theorem syn_of_direction {a b ls : Bool} (h : (if a then (if ls then .Outbound else .Inbound) else .Unknown) =
    if b then (if ls then Direction.Outbound else .Inbound) else .Unknown) : a = b := by
  revert a b ls
  decide

/-- Two packets between the same addresses: one flow and one direction, from every state. -/
theorem sameFlow_iff {v6 : IPv6Text} {addrs : HostAddresses} {h : CaptureHandle} {w₁ w₂ : Window}
    (hp : (parsePacket v6 w₁ h.datalink).run = .ok (some p))
    (hq : (parsePacket v6 w₂ h.datalink).run = .ok (some q))
    (hpair : AddressPair p.src.address p.dst.address) (hsame : SameAddresses p q) :
    SameFlow v6 addrs h w₁ w₂ ↔ SamePorts p q ∧
      (addrs.isLocal p.src.address ≠ addrs.isLocal p.dst.address → p.pureSyn = q.pureSyn) := by
  constructor
  · intro hflow
    -- an empty table shows the key and the direction of each packet
    have hroom : ¬ Full { addrs } := by
      intro hfull
      exact absurd (show (0 : ℕ) ≥ kMaxFlows from hfull) (by decide)
    obtain ⟨key, a₁, a₂, h₁, h₂, hdir⟩ := hflow { addrs } 0 0 rfl hroom
    rw [handlePacket_of_room 0 0 hp hroom] at h₁
    rw [handlePacket_of_room 0 0 hq hroom] at h₂
    injection h₁ with h₁
    injection h₂ with h₂
    obtain ⟨hkey₁, rfl⟩ := insert_empty_inj (congrArg flows h₁)
    obtain ⟨hkey₂, rfl⟩ := insert_empty_inj (congrArg flows h₂)
    have hkey := hkey₁.trans hkey₂.symm
    refine ⟨(flowKey_eq_iff hpair hsame).mp hkey, fun hlocal => ?_⟩
    have hnew : (recorded { addrs } h q).observedDir = .Unknown := rfl
    have hne : (addrs.isLocal p.src.address != addrs.isLocal p.dst.address) = true := bne_iff_ne.mpr hlocal
    rw [observedDir_updated, observedDir_updated, observedDir_recorded h hkey, hsame.src, hsame.dst, hnew]
      at hdir
    dsimp only at hdir
    rw [hne, Bool.and_true, Bool.and_true] at hdir
    exact syn_of_direction hdir
  · rintro ⟨hports, hsyn⟩ s wireLen now rfl hroom
    have hkey : s.flowKey p = s.flowKey q := (flowKey_eq_iff hpair hsame).mpr hports
    refine ⟨s.flowKey p, _, s.updated wireLen now (s.recorded h q) q,
      handlePacket_of_room wireLen now hp hroom, ?_, ?_⟩
    · rw [hkey]
      exact handlePacket_of_room wireLen now hq hroom
    · rw [observedDir_updated, observedDir_updated, observedDir_recorded h hkey, hsame.src, hsame.dst]
      by_cases hlocal : s.addrs.isLocal p.src.address = s.addrs.isLocal p.dst.address
      · rw [hlocal, bne_self_eq_false, Bool.and_false, Bool.and_false]
      · rw [hsyn hlocal]

end BsdConnectionWorker

/-! ### Later fragments -/

/-- Bytes of the front part. -/
theorem peek_eq_of_front {w₁ w₂ : Window} {n : ℕ} (h : w₁.peek 0 n = w₂.peek 0 n) {i k : ℕ}
    (hle : i + k ≤ n) : w₁.peek i k = w₂.peek i k := by
  have hpeek : ∀ w : Window, w.peek i k = ((w.peek 0 n).drop i).take k := by
    intro w
    rw [Window.peek, Window.peek, List.drop_zero, List.drop_take, List.take_take, min_eq_left (by omega)]
  rw [hpeek, hpeek, h]

/-- Where the IP header begins, for windows alike in their first 18 bytes. -/
theorem ipOffset_congr {w₁ w₂ : Window} (hsize : w₁.size = w₂.size)
    (h : ∀ {i k}, i + k ≤ 18 → w₁.peek i k = w₂.peek i k) (datalink : LinkType) :
    ipOffset w₁ datalink = ipOffset w₂ datalink := by
  have hread : ∀ {i}, i + 2 ≤ 18 → w₁.uint16 .big i = w₂.uint16 .big i := by
    intro i hi
    rw [Window.uint16, Window.uint16, Window.read, Window.read, hsize, h hi]
  cases datalink with
  | DLT_EN10MB =>
      rw [ipOffset, ipOffset, hsize, hread (by decide), hread (by decide)]
  | DLT_NULL => rfl
  | DLT_LOOP => rfl
  | other => rfl

/-- Two packets of one length, IPv4 fragments other than the first, that agree up to the end of their IP
headers. -/
structure LaterFragments (datalink : LinkType) (w₁ w₂ : Window) (off : ℕ) : Prop where
  located : (ipOffset w₁ datalink).run = .ok (some off)
  header : IPv4Header w₁ off
  later : fragmentOffset w₁ off ≠ 0
  size : w₁.size = w₂.size
  headers : w₁.peek 0 (off + headerLength w₁ off) = w₂.peek 0 (off + headerLength w₁ off)

namespace LaterFragments
variable {datalink : LinkType} {w₁ w₂ : Window} {off : ℕ} (h : LaterFragments datalink w₁ w₂ off)
include h

theorem peek_eq {i k : ℕ} (hle : i + k ≤ off + headerLength w₁ off) : w₁.peek i k = w₂.peek i k :=
  peek_eq_of_front h.headers hle

theorem byteAt_eq {i : ℕ} (hi : i < off + headerLength w₁ off) : byteAt w₁ i = byteAt w₂ i := by
  rw [byteAt, byteAt, h.peek_eq hi]

theorem addressAt_eq {i : ℕ} (hi : i + 4 ≤ off + headerLength w₁ off) : addressAt w₁ i = addressAt w₂ i := by
  rw [addressAt, addressAt, Window.numberAt, Window.numberAt, h.peek_eq hi]

theorem headerLength_eq : headerLength w₂ off = headerLength w₁ off := by
  have hlength := h.header.length
  rw [headerLength, headerLength, h.byteAt_eq (by omega)]

/-- The other packet has the same header. -/
theorem header_right : IPv4Header w₂ off := by
  have hlength := h.header.length
  refine ⟨?_, ?_, ?_⟩
  · rw [← h.byteAt_eq (by omega)]
    exact h.header.version
  · rw [h.headerLength_eq]
    exact hlength
  · rw [h.headerLength_eq, ← h.size]
    exact h.header.captured

theorem located_right : (ipOffset w₂ datalink).run = .ok (some off) := by
  have hlength := h.header.length
  rw [← ipOffset_congr h.size (fun hle => h.peek_eq (by omega)) datalink]
  exact h.located

theorem sameAddresses : SameAddresses (ipv4Packet w₁ off) (ipv4Packet w₂ off) := by
  have hlength := h.header.length
  refine ⟨?_, ?_, ?_⟩
  · rw [ipv4Packet, ipv4Packet, ipv4Proto, ipv4Proto, h.byteAt_eq (by omega)]
  · rw [ipv4Packet, ipv4Packet, h.addressAt_eq (i := off + 12) (by omega)]
  · rw [ipv4Packet, ipv4Packet, h.addressAt_eq (i := off + 16) (by omega)]

/-- What is read of the other packet, in terms of the first one's header. -/
theorem packet_right : ipv4Packet w₂ off =
    let proto := ipv4Proto w₁ off
    let l4off := off + headerLength w₁ off
    let ports := if (proto = .Tcp ∨ proto = .Udp) ∧ l4off + 4 ≤ w₁.size then
      (portAt w₂ l4off, portAt w₂ (l4off + 2)) else (0, 0)
    { proto
      src := ⟨ipv4Address (addressAt w₁ (off + 12)), ports.1⟩
      dst := ⟨ipv4Address (addressAt w₁ (off + 16)), ports.2⟩
      pureSyn := decide (proto = .Tcp ∧ l4off + 14 ≤ w₁.size) &&
        isPureSyn (byteAt w₂ (l4off + 13)) } := by
  have hlength := h.header.length
  rw [ipv4Packet, ipv4Proto, ipv4Proto, h.headerLength_eq, h.byteAt_eq (by omega),
    h.addressAt_eq (i := off + 12) (by omega), h.addressAt_eq (i := off + 16) (by omega), h.size]

end LaterFragments

/-- What is read behind the headers agrees as far as it matters: the ports, where there are any, and for
TCP with one end local whether the flags are those of a SYN without ACK. -/
def TransportAgrees (addrs : HostAddresses) (w₁ w₂ : Window) (off : ℕ) : Prop :=
  let proto := ipv4Proto w₁ off
  let l4off := off + headerLength w₁ off
  let src := addressAt w₁ (off + 12)
  let dst := addressAt w₁ (off + 16)
  ((proto = .Tcp ∨ proto = .Udp) → l4off + 4 ≤ w₁.size →
    (portAt w₁ l4off = portAt w₂ l4off ∧ portAt w₁ (l4off + 2) = portAt w₂ (l4off + 2)) ∨
    (src = dst ∧ portAt w₁ l4off = portAt w₂ (l4off + 2) ∧ portAt w₁ (l4off + 2) = portAt w₂ l4off)) ∧
  (proto = .Tcp → l4off + 14 ≤ w₁.size →
    addrs.isLocal (ipv4Address src) ≠ addrs.isLocal (ipv4Address dst) →
    isPureSyn (byteAt w₁ (l4off + 13)) = isPureSyn (byteAt w₂ (l4off + 13)))

namespace BsdConnectionWorker

/-- **Payload as identity**: two later fragments that differ in their payload only are one flow with one
direction, from every state, exactly when what is read of the payload agrees. -/
theorem laterFragments_iff (v6 : IPv6Text) (addrs : HostAddresses) (h : CaptureHandle) {w₁ w₂ : Window}
    {off : ℕ} (hf : LaterFragments h.datalink w₁ w₂ off) :
    SameFlow v6 addrs h w₁ w₂ ↔ TransportAgrees addrs w₁ w₂ off := by
  have hpair : AddressPair (ipv4Packet w₁ off).src.address (ipv4Packet w₁ off).dst.address :=
    ⟨plainAddress_ipv4 _, plainAddress_ipv4 _, rfl⟩
  rw [sameFlow_iff (parsePacket_v4 v6 hf.located hf.header)
    (parsePacket_v4 v6 hf.located_right hf.header_right) hpair hf.sameAddresses, hf.packet_right]
  refine and_congr ?_ ?_
  · by_cases hports : (ipv4Proto w₁ off = .Tcp ∨ ipv4Proto w₁ off = .Udp) ∧
        off + headerLength w₁ off + 4 ≤ w₁.size
    · simp only [SamePorts, ipv4Packet, if_pos hports, ipv4Address_injective.eq_iff]
      exact ⟨fun h _ _ => h, fun h => h hports.1 hports.2⟩
    · -- no ports are read of either packet
      simp only [SamePorts, ipv4Packet, if_neg hports, and_self, true_or, true_iff]
      exact fun hproto hroom => absurd ⟨hproto, hroom⟩ hports
  · by_cases hflags : ipv4Proto w₁ off = .Tcp ∧ off + headerLength w₁ off + 14 ≤ w₁.size
    · simp only [ipv4Packet, decide_eq_true hflags, Bool.true_and]
      exact ⟨fun h _ _ => h, fun h => h hflags.1 hflags.2⟩
    · -- no flags are read of either packet
      simp only [ipv4Packet, decide_eq_false hflags, Bool.false_and, implies_true, true_iff]
      exact fun hproto hroom => absurd ⟨hproto, hroom⟩ hflags

/-- A fragment of a UDP datagram, 1480 bytes in, with no link-layer header. -/
def udpFragment (payload : List UInt8) : Window where
  buffer := [0x45, 0, 0, 28, 0x12, 0x34, 0, 185, 64, 17, 0, 0, 10, 0, 0, 1, 10, 0, 0, 2] ++ payload
  size := 20 + payload.length
  le := by rw [List.length_append]; rfl

/-- Two fragments whose payload begins in different ways. -/
theorem udpFragments : LaterFragments .other (udpFragment [0, 80, 4, 210]) (udpFragment [1, 80, 4, 210]) 0 where
  located := rfl
  header := ⟨by decide, by decide, by decide⟩
  later := by decide
  size := rfl
  headers := rfl

theorem laterFragments_iff_udp :
    SameFlow .decimal {} rawCapture (udpFragment [0, 80, 4, 210]) (udpFragment [1, 80, 4, 210]) ↔
      TransportAgrees {} (udpFragment [0, 80, 4, 210]) (udpFragment [1, 80, 4, 210]) 0 :=
  laterFragments_iff .decimal {} rawCapture udpFragments

/-- They become two flows: the first byte of the payload is the source port's. -/
theorem udpFragments_split : ¬ ∀ (v6 : IPv6Text) (addrs : HostAddresses) (h : CaptureHandle) (w₁ w₂ : Window)
    (off : ℕ), LaterFragments h.datalink w₁ w₂ off → SameFlow v6 addrs h w₁ w₂ := by
  intro h
  have hflow := h .decimal {} rawCapture _ _ 0 udpFragments
  have hports := (sameFlow_iff (parsePacket_v4 .decimal udpFragments.located udpFragments.header)
    (parsePacket_v4 .decimal udpFragments.located_right udpFragments.header_right)
    ⟨plainAddress_ipv4 _, plainAddress_ipv4 _, rfl⟩ udpFragments.sameAddresses).mp hflow
  exact absurd hports.1 (by decide)

end BsdConnectionWorker

end Qiftop.Backend.Bsd
