import Qiftop.Backend.NetnsScanner

/-!
# Backend — keys of sockets

The table of sockets holds keys of flows and keys of local ends, written one part after the other: bytes
of addresses, which may be any, ports and tags.  Nothing is lost in a key (`socketKeys_sound`).

The parts of a key can be told apart because its length tells the family of its addresses, as long as
both ends of a flow are of one family, and because no protocol that is looked up has the tag of local
keys for its number.
-/

namespace Qiftop.Backend
open Lib SockDiag

inductive AddressFamily where
  | IPv4 | IPv6
  deriving DecidableEq, Repr

/-- How many bytes an address of the family has. -/
def AddressFamily.width : AddressFamily → ℕ
  | .IPv4 => 4
  | .IPv6 => 16

namespace HostAddress

def family : HostAddress → Option AddressFamily
  | .null => none
  | .v4 _ => some .IPv4
  | .v6 _ => some .IPv6

theorem length_bytes_of_family {a : HostAddress} {fam : AddressFamily} (h : a.family = some fam) :
    a.bytes.length = fam.width := by
  cases a with
  | null => cases h
  | v4 a =>
      cases h
      exact length_bigEndian 4 _
  | v6 a =>
      cases h
      exact length_bigEndian 16 _

/-- Addresses of one family are told by their bytes. -/
theorem bytes_inj {a b : HostAddress} {fam : AddressFamily} (ha : a.family = some fam)
    (hb : b.family = some fam) (h : a.bytes = b.bytes) : a = b := by
  cases a with
  | null => cases ha
  | v4 a =>
      cases ha
      cases b with
      | null | v6 _ => cases hb
      | v4 b => rw [UInt32.toNat_inj.mp (bigEndian_inj a.toNat_lt b.toNat_lt h)]
  | v6 a =>
      cases ha
      cases b with
      | null | v4 _ => cases hb
      | v6 b => rw [BitVec.eq_of_toNat_eq (bigEndian_inj a.isLt b.isLt h)]

end HostAddress

/-! ### Flows -/

/-- An end of a flow, as it stands in a key. -/
def endBytes (addr : HostAddress) (port : UInt16) : QByteArray := addr.bytes ++ bigEndian 2 port.toNat

theorem length_endBytes {a : HostAddress} {fam : AddressFamily} (h : a.family = some fam)
    (port : UInt16) : (endBytes a port).length = fam.width + 2 := by
  rw [endBytes, List.length_append, length_bigEndian, HostAddress.length_bytes_of_family h]

theorem endBytes_inj {a b : HostAddress} {fam : AddressFamily} {p q : UInt16}
    (ha : a.family = some fam) (hb : b.family = some fam) (h : endBytes a p = endBytes b q) :
    a = b ∧ p = q := by
  obtain ⟨haddr, hport⟩ := List.append_inj h (by
    rw [HostAddress.length_bytes_of_family ha, HostAddress.length_bytes_of_family hb])
  exact ⟨HostAddress.bytes_inj ha hb haddr,
    UInt16.toNat_inj.mp (bigEndian_inj p.toNat_lt q.toNat_lt hport)⟩

namespace SockFlow

/-- A TCP or UDP flow between addresses of one family. -/
structure Plain (fam : AddressFamily) (f : SockFlow) : Prop where
  proto : f.proto = .Tcp ∨ f.proto = .Udp
  localFamily : f.localAddress.family = some fam
  remoteFamily : f.remoteAddress.family = some fam

theorem flowKey_eq (f : SockFlow) :
    f.flowKey = f.number ::
      (endBytes f.localAddress f.localPort ++ endBytes f.remoteAddress f.remotePort) :=
  rfl

theorem length_flowKey {f : SockFlow} {fam : AddressFamily} (h : f.Plain fam) :
    f.flowKey.length = 2 * fam.width + 5 := by
  rw [flowKey_eq, List.length_cons, List.length_append, length_endBytes h.localFamily,
    length_endBytes h.remoteFamily]
  omega

theorem proto_eq_of_number {f g : SockFlow} (hf : f.proto = .Tcp ∨ f.proto = .Udp)
    (hg : g.proto = .Tcp ∨ g.proto = .Udp) (h : f.number = g.number) : f.proto = g.proto := by
  have hudp : f.proto = .Udp ↔ g.proto = .Udp := by
    rw [← number_eq_udp_iff, h, number_eq_udp_iff]
  rcases hf with hf | hf
  · rcases hg with hg | hg
    · rw [hf, hg]
    · rw [hudp.mpr hg, hg]
  · rw [hf, hudp.mp hf]

/-- The key of a flow tells the flow. -/
theorem flowKey_inj {f g : SockFlow} {fam fam' : AddressFamily} (hf : f.Plain fam)
    (hg : g.Plain fam') (h : f.flowKey = g.flowKey) : f = g := by
  -- the length of the key tells the family
  have hlength := congrArg List.length h
  rw [length_flowKey hf, length_flowKey hg] at hlength
  have hfam : fam = fam' := by
    cases fam <;> cases fam' <;> first | rfl | cases hlength
  subst hfam
  rw [flowKey_eq, flowKey_eq] at h
  obtain ⟨hnumber, hends⟩ := List.cons.inj h
  obtain ⟨hlocal, hremote⟩ := List.append_inj hends (by
    rw [length_endBytes hf.localFamily, length_endBytes hg.localFamily])
  obtain ⟨hla, hlp⟩ := endBytes_inj hf.localFamily hg.localFamily hlocal
  obtain ⟨hra, hrp⟩ := endBytes_inj hf.remoteFamily hg.remoteFamily hremote
  have hproto := proto_eq_of_number hf.proto hg.proto hnumber
  obtain ⟨proto, la, lp, ra, rp⟩ := f
  obtain ⟨proto', la', lp', ra', rp'⟩ := g
  dsimp only at hproto hla hlp hra hrp
  rw [hproto, hla, hlp, hra, hrp]

end SockFlow

/-! ### Both kinds of keys -/

/-- A key is the local key of some protocol and local end. -/
def OfLocalEnd (key : QByteArray) : Prop := ∃ proto addr port, key = makeLocalKey proto addr port

/-- A key is the key of some flow that is looked up. -/
def OfFlow (key : QByteArray) : Prop :=
  ∃ f : SockFlow, (f.proto = .Tcp ∨ f.proto = .Udp) ∧ key = f.flowKey

structure SocketKeysSound : Prop where
  /-- Equal keys of flows are of one flow: protocol, addresses with their family, and ports. -/
  injective : ∀ fam fam' (f g : SockFlow), f.Plain fam → g.Plain fam' → f.flowKey = g.flowKey → f = g
  /-- No key of any flow is a local key. -/
  disjoint : ∀ proto localAddr localPort remoteAddr remotePort,
    ¬ OfLocalEnd (makeFlowKey proto localAddr localPort remoteAddr remotePort)
  /-- Of the keys in use, `isLocalKey` tells which are local. -/
  recognised : ∀ key, OfFlow key ∨ OfLocalEnd key → (isLocalKey key = true ↔ OfLocalEnd key)

/-- **Keys of sockets are told apart.** -/
theorem socketKeys_sound : SocketKeysSound where
  injective fam fam' f g hf hg h := SockFlow.flowKey_inj hf hg h
  disjoint proto localAddr localPort remoteAddr remotePort := by
    rintro ⟨proto', addr, port, h⟩
    exact makeFlowKey_ne_makeLocalKey _ _ _ _ _ _ _ _ h
  recognised key hkey := by
    rcases hkey with ⟨f, hf, rfl⟩ | hlocal
    · rw [SockFlow.isLocalKey_flowKey hf]
      refine iff_of_false Bool.false_ne_true ?_
      rintro ⟨proto, addr, port, h⟩
      exact makeFlowKey_ne_makeLocalKey _ _ _ _ _ _ _ _ h
    · refine iff_of_true ?_ hlocal
      obtain ⟨proto, addr, port, rfl⟩ := hlocal
      rfl

end Qiftop.Backend
