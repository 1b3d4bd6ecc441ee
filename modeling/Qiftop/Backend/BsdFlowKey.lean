import Mathlib.Data.List.Lex
import Qiftop.Qt.Text
import Qiftop.Backend.ConnectionKeys

/-!
# Backend — flow keys of captured packets

`backend/bsd/BsdFlowKey.h` and the order of endpoints in `backend/bsd/BsdConnectionWorker.cpp`.  The
addresses of a packet come from its bytes; their texts have no scope id, so no substitution into a key
meets a marker that is not the template's.

* `flowKeyExact_eq`, `flowKeyExact_inj`: the shape of a key, and that it tells both endpoints.
* `endpointGreater_swap`: of two different endpoints of one address family exactly one is the greater.

The text of an IPv6 address is Qt's; it is the parameter `IPv6Text`.
-/

namespace Qiftop.Backend.Bsd
open Qt

/-! ### Addresses -/

/-- `QHostAddress::toString` of 16 bytes.  Different addresses have different texts, so an address can be
given as its text. -/
structure IPv6Text where
  text : BitVec 128 → QString
  injective : Function.Injective text
  plain : ∀ a, ∀ c ∈ text a, isAddressChar c = true

/-- The `i`th byte of an IPv4 address. -/
def octet (a : UInt32) (i : ℕ) : ℕ := a.toNat / 256 ^ (3 - i) % 256

/-- `QHostAddress::toString` of an IPv4 address. -/
def ipv4Text (a : UInt32) : QString :=
  number (octet a 0) ++ '.' :: (number (octet a 1) ++ '.' :: (number (octet a 2) ++ '.' ::
    number (octet a 3)))

/-- `QHostAddress(quint32)`. -/
def ipv4Address (a : UInt32) : QHostAddress := ⟨.IPv4Protocol, ipv4Text a⟩

/-- `QHostAddress(Q_IPV6ADDR)`. -/
def ipv6Address (v6 : IPv6Text) (a : BitVec 128) : QHostAddress := ⟨.IPv6Protocol, v6.text a⟩

theorem isAddressChar_number {n : ℕ} {c : Char} (h : c ∈ number n) : isAddressChar c = true := by
  have hdigit : c.isDigit = true := Nat.isDigit_of_mem_toDigits (by decide) (by decide) h
  rw [isAddressChar, hdigit]
  rfl

/-- A text for each address, as a number. -/
def IPv6Text.decimal : IPv6Text where
  text a := number a.toNat
  injective _ _ h := BitVec.eq_of_toNat_eq (number_injective h)
  plain _ _ h := isAddressChar_number h

theorem ipv4Text_plain (a : UInt32) : ∀ c ∈ ipv4Text a, isAddressChar c = true := by
  have hdot : ∀ {s t : QString}, (∀ c ∈ s, isAddressChar c = true) → (∀ c ∈ t, isAddressChar c = true) →
      ∀ c ∈ s ++ '.' :: t, isAddressChar c = true := by
    intro s t hs ht c hc
    rw [List.mem_append, List.mem_cons] at hc
    rcases hc with hc | rfl | hc
    · exact hs c hc
    · rfl
    · exact ht c hc
  have hnumber : ∀ n, ∀ c ∈ number n, isAddressChar c = true := fun n c hc => isAddressChar_number hc
  exact hdot (hnumber _) (hdot (hnumber _) (hdot (hnumber _) (hnumber _)))

/-- The bytes of an address give it back. -/
theorem octets_eq (a : UInt32) :
    ((octet a 0 * 256 + octet a 1) * 256 + octet a 2) * 256 + octet a 3 = a.toNat := by
  have hlt : a.toNat < 4294967296 := a.toNat_lt
  have h0 : octet a 0 = a.toNat / 16777216 % 256 := rfl
  have h1 : octet a 1 = a.toNat / 65536 % 256 := rfl
  have h2 : octet a 2 = a.toNat / 256 % 256 := rfl
  have h3 : octet a 3 = a.toNat / 1 % 256 := rfl
  omega

/-- A number before a dot. -/
theorem number_dot_inj {m n : ℕ} {s t : QString} (h : number m ++ '.' :: s = number n ++ '.' :: t) :
    m = n ∧ s = t := by
  obtain ⟨hnumber, -, hrest⟩ := split_first (p := (· = '.')) h
    (fun x hx e => (notMem_number m).2.2 (e ▸ hx)) (fun x hx e => (notMem_number n).2.2 (e ▸ hx)) rfl rfl
  exact ⟨number_injective hnumber, hrest⟩

theorem ipv4Text_injective : Function.Injective ipv4Text := by
  intro a b h
  obtain ⟨h0, h⟩ := number_dot_inj h
  obtain ⟨h1, h⟩ := number_dot_inj h
  obtain ⟨h2, h⟩ := number_dot_inj h
  have h3 := number_injective h
  apply UInt32.toNat_inj.mp
  rw [← octets_eq a, ← octets_eq b, h0, h1, h2, h3]

theorem ipv4Address_injective : Function.Injective ipv4Address := by
  intro a b h
  injection h with _ htext
  exact ipv4Text_injective htext

/-! ### Keys -/

def flowKeyExact (proto : L4Proto) («local» remote : Endpoint) : QString :=
  arg (arg (arg (arg (arg "%1|%2.%3|%4.%5".toList (number proto.toNat)) local.address.toString)
    (number local.port.toNat)) remote.address.toString) (number remote.port.toNat)

/-- An address of a packet: its text holds no marker. -/
def PlainAddress (a : QHostAddress) : Prop := ∀ c ∈ a.toString, isAddressChar c = true

theorem plainAddress_ipv4 (a : UInt32) : PlainAddress (ipv4Address a) := ipv4Text_plain a

theorem plainAddress_ipv6 (v6 : IPv6Text) (a : BitVec 128) : PlainAddress (ipv6Address v6 a) := v6.plain a

theorem PlainAddress.percent_notMem {a : QHostAddress} (h : PlainAddress a) : '%' ∉ a.toString :=
  (notMem_of_isAddressChar h).1

theorem PlainAddress.addressText {a : QHostAddress} (h : PlainAddress a) : AddressText a.toString :=
  .plain h

/-- The text of an endpoint in a key. -/
theorem percent_notMem_end {a : QHostAddress} (h : PlainAddress a) (port : ℕ) :
    '%' ∉ a.toString ++ '.' :: number port :=
  percent_notMem_append h.percent_notMem (by decide) (notMem_number port).1

variable {proto proto' : L4Proto} {l r l' r' : Endpoint}

/-- **The shape of a key**: the protocol digit, then the endpoints. -/
theorem flowKeyExact_eq (hl : PlainAddress l.address) (hr : PlainAddress r.address) :
    flowKeyExact proto l r = [proto.digit, '|'] ++
      endsText l.address.toString (number l.port.toNat) r.address.toString (number r.port.toNat) := by
  have hproto : '%' ∉ [proto.digit, '|'] := by cases proto <;> decide
  have hend := percent_notMem_end hl l.port.toNat
  have h₁ : arg "%1|%2.%3|%4.%5".toList [proto.digit] = [proto.digit, '|'] ++ "%2.%3|%4.%5".toList := rfl
  have h₂ : arg "%2.%3|%4.%5".toList l.address.toString =
      l.address.toString ++ ".%3|%4.%5".toList := rfl
  have h₃ : arg ".%3|%4.%5".toList (number l.port.toNat) =
      '.' :: number l.port.toNat ++ "|%4.%5".toList := rfl
  have h₄ : arg "|%4.%5".toList r.address.toString = '|' :: r.address.toString ++ ".%5".toList := rfl
  have h₅ : arg ".%5".toList (number r.port.toNat) = '.' :: (number r.port.toNat ++ []) := rfl
  have hremote : '%' ∉ '|' :: r.address.toString := by simp [hr.percent_notMem]
  rw [flowKeyExact, number_proto, h₁, arg_append hproto, h₂, arg_append hproto,
    arg_append hl.percent_notMem, h₃, ← List.append_assoc l.address.toString, arg_append hproto,
    arg_append hend, h₄, arg_append hproto, arg_append hend, arg_append hremote, h₅]
  simp [endsText]

/-- A key tells the protocol and both endpoints' texts. -/
theorem flowKeyExact_inj (hl : PlainAddress l.address) (hr : PlainAddress r.address)
    (hl' : PlainAddress l'.address) (hr' : PlainAddress r'.address)
    (h : flowKeyExact proto l r = flowKeyExact proto' l' r') :
    proto = proto' ∧ l.address.toString = l'.address.toString ∧ l.port = l'.port ∧
      r.address.toString = r'.address.toString ∧ r.port = r'.port := by
  rw [flowKeyExact_eq hl hr, flowKeyExact_eq hl' hr'] at h
  injection h with hproto h
  injection h with _ h
  obtain ⟨hL, hp, hR, hq⟩ := endsText_inj hl.addressText hr.addressText hl'.addressText
    hr'.addressText h
  exact ⟨L4Proto.digit_injective hproto, hL, UInt16.toNat_inj.mp hp, hR, UInt16.toNat_inj.mp hq⟩

/-! ### The order of endpoints -/

/-- `endpointGreater`. -/
def endpointGreater (a b : Endpoint) : Bool :=
  if a.port ≠ b.port then decide (a.port > b.port)
  else textLess b.address.toString a.address.toString

/-- The characters of addresses are ASCII. -/
theorem toNat_lt_of_isAddressChar {c : Char} (h : isAddressChar c = true) : c.toNat < 128 := by
  have hle : ∀ {d : Char}, c ≤ d → c.toNat ≤ d.toNat := fun hcd => hcd
  simp only [isAddressChar, Bool.or_eq_true, Bool.and_eq_true, decide_eq_true_eq, beq_iff_eq,
    Char.isDigit] at h
  rcases h with (((⟨-, h⟩ | ⟨-, h⟩) | ⟨-, h⟩) | rfl) | rfl
  · exact lt_of_le_of_lt (hle (d := '9') h) (by decide)
  · exact lt_of_le_of_lt (hle h) (by decide)
  · exact lt_of_le_of_lt (hle h) (by decide)
  · decide
  · decide

/-- The code units of an address text are its characters. -/
theorem flatMap_utf16 {s : QString} (hs : ∀ c ∈ s, isAddressChar c = true) :
    s.flatMap utf16 = s.map Char.toNat := by
  induction s with
  | nil => rfl
  | cons c s ih =>
      have hlt := toNat_lt_of_isAddressChar (hs c List.mem_cons_self)
      have hunit : utf16 c = [c.toNat] := if_pos (by omega)
      rw [List.flatMap_cons, hunit, ih fun d hd => hs d (List.mem_cons_of_mem c hd)]
      rfl

/-- Different address texts are ordered one way. -/
theorem textLess_total {s t : QString} (hs : ∀ c ∈ s, isAddressChar c = true)
    (ht : ∀ c ∈ t, isAddressChar c = true) (hne : s ≠ t) : textLess s t = !textLess t s := by
  have hinj : Function.Injective Char.toNat := fun c d h => Char.toNat_inj.mp h
  have hne' : s.map Char.toNat ≠ t.map Char.toNat := fun h => hne (List.map_injective_iff.mpr hinj h)
  rw [textLess, textLess, flatMap_utf16 hs, flatMap_utf16 ht]
  rcases lt_or_gt_of_ne hne' with hlt | hgt
  · rw [List.lex_eq_true_iff_lt.mpr hlt, List.lex_eq_false_iff_ge.mpr (List.le_of_lt hlt)]
    rfl
  · rw [List.lex_eq_true_iff_lt.mpr hgt, List.lex_eq_false_iff_ge.mpr (List.le_of_lt hgt)]
    rfl

theorem endpoint_eq {a b : Endpoint} (hprotocol : a.address.protocol = b.address.protocol)
    (htext : a.address.toString = b.address.toString) (hport : a.port = b.port) : a = b := by
  obtain ⟨⟨pa, ta⟩, qa⟩ := a
  obtain ⟨⟨pb, tb⟩, qb⟩ := b
  dsimp only at hprotocol htext hport
  rw [hprotocol, htext, hport]

/-- **Of two different endpoints exactly one is the greater.** -/
theorem endpointGreater_swap {a b : Endpoint} (ha : PlainAddress a.address) (hb : PlainAddress b.address)
    (hprotocol : a.address.protocol = b.address.protocol) (hne : a ≠ b) :
    endpointGreater b a = !endpointGreater a b := by
  rw [endpointGreater, endpointGreater]
  by_cases hport : a.port = b.port
  · have htext : a.address.toString ≠ b.address.toString := by
      intro htext
      exact hne (endpoint_eq hprotocol htext hport)
    rw [if_neg (by simp [hport]), if_neg (by simp [hport])]
    exact textLess_total ha hb htext
  · rw [if_pos (Ne.symm hport), if_pos hport]
    have hports : a.port.toNat ≠ b.port.toNat := fun h => hport (UInt16.toNat_inj.mp h)
    simp only [gt_iff_lt, UInt16.lt_iff_toNat_lt]
    rcases lt_or_gt_of_ne hports with hlt | hgt
    · rw [decide_eq_true hlt, decide_eq_false hlt.asymm]
      rfl
    · rw [decide_eq_false (not_lt_of_gt hgt), decide_eq_true hgt]
      rfl

end Qiftop.Backend.Bsd
