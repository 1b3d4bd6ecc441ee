import Qiftop.Backend.Connection
import Qiftop.Qt.Arg

/-!
# Backend — keys and scope ids

A key is built by substituting into a text that already holds addresses.  The address of a link-local
peer ends in `%` and a scope id, and a scope id that starts with a digit reads as a place marker: the
port or the peer is put there.

`key_own_iff`: among connections alike in this respect a key belongs to one flow exactly when no address
of the connection holds a marker numbered 6 or less.
-/

namespace Qiftop.Backend
open Qt

/-! ### Addresses as texts -/

/-- The characters of an address before its scope id. -/
def isAddressChar (c : Char) : Bool :=
  c.isDigit || ('a' ≤ c && c ≤ 'f') || ('A' ≤ c && c ≤ 'F') || c == ':' || c == '.'

/-- What `QHostAddress::toString` gives.  A scope id is what followed the last `%` of the text the address
was read from. -/
inductive AddressText : QString → Prop
  | plain {base : QString} (hbase : ∀ c ∈ base, isAddressChar c = true) : AddressText base
  | withScope {base scope : QString} (hbase : ∀ c ∈ base, isAddressChar c = true) (hscope : '%' ∉ scope) :
      AddressText (base ++ '%' :: scope)

namespace Connection

/-- Both addresses are such texts. -/
def AddressTexts (c : Connection) : Prop :=
  AddressText c.local.address.toString ∧ AddressText c.remote.address.toString

/-- No address holds a marker that one of the six substitutions can take for one of the format's. -/
def Unmarked (c : Connection) : Prop :=
  Above 6 c.local.address.toString ∧ Above 6 c.remote.address.toString

instance (c : Connection) : Decidable c.Unmarked := inferInstanceAs (Decidable (_ ∧ _))

/-- What a key should tell apart. -/
structure SameFlow (a b : Connection) : Prop where
  proto : a.proto = b.proto
  direction : a.direction = b.direction
  localAddress : a.local.address.toString = b.local.address.toString
  localPort : a.local.port = b.local.port
  remoteAddress : a.remote.address.toString = b.remote.address.toString
  remotePort : a.remote.port = b.remote.port

end Connection

/-! ### Splitting at a separator -/

/-- The first element with a property. -/
theorem split_first {α : Type} {p : α → Prop} {u v z w : List α} {c d : α}
    (h : u ++ c :: z = v ++ d :: w) (hu : ∀ x ∈ u, ¬ p x) (hv : ∀ x ∈ v, ¬ p x) (hc : p c) (hd : p d) :
    u = v ∧ c = d ∧ z = w := by
  induction u generalizing v with
  | nil =>
      cases v with
      | nil =>
          injection h with hcd hzw
          exact ⟨rfl, hcd, hzw⟩
      | cons y v =>
          injection h with hcy _
          exact absurd (hcy ▸ hc) (hv y List.mem_cons_self)
  | cons x u ih =>
      cases v with
      | nil =>
          injection h with hxd _
          exact absurd (hxd ▸ hd) (hu x List.mem_cons_self)
      | cons y v =>
          injection h with hxy hrest
          obtain ⟨huv, hcd, hzw⟩ := ih hrest (fun x' hx' => hu x' (List.mem_cons_of_mem x hx'))
            (fun y' hy' => hv y' (List.mem_cons_of_mem y hy'))
          exact ⟨by rw [hxy, huv], hcd, hzw⟩

/-- The last separator. -/
theorem split_last {α : Type} {c : α} {u v z w : List α} (h : u ++ c :: z = v ++ c :: w) (hz : c ∉ z)
    (hw : c ∉ w) : u = v ∧ z = w := by
  have hrev : z.reverse ++ c :: u.reverse = w.reverse ++ c :: v.reverse := by
    simpa using congrArg List.reverse h
  obtain ⟨hzw, -, huv⟩ := split_first (p := (· = c)) hrev
    (fun x hx e => hz (e ▸ List.mem_reverse.mp hx)) (fun x hx e => hw (e ▸ List.mem_reverse.mp hx)) rfl rfl
  exact ⟨List.reverse_inj.mp huv, List.reverse_inj.mp hzw⟩

theorem notMem_of_isAddressChar {base : QString} (h : ∀ c ∈ base, isAddressChar c = true) :
    '%' ∉ base ∧ '|' ∉ base :=
  ⟨fun hm => absurd (h _ hm) (by decide), fun hm => absurd (h _ hm) (by decide)⟩

theorem notMem_number (n : ℕ) : '%' ∉ number n ∧ '|' ∉ number n ∧ '.' ∉ number n := by
  have hdigit : ∀ c ∈ number n, c.isDigit = true := fun c hc =>
    Nat.isDigit_of_mem_toDigits (by decide) (by decide) hc
  exact ⟨fun hm => absurd (hdigit _ hm) (by decide), fun hm => absurd (hdigit _ hm) (by decide),
    fun hm => absurd (hdigit _ hm) (by decide)⟩

theorem number_injective : Function.Injective number := by
  intro m n h
  have hvalue := congrArg (fun s => Nat.ofDigitChars 10 s 0) h
  simpa [number, Nat.ofDigitChars_ten_toDigits] using hvalue

theorem percent_notMem_append {u v : QString} {c : Char} (hu : '%' ∉ u) (hc : c ≠ '%') (hv : '%' ∉ v) :
    '%' ∉ u ++ c :: v := by
  simp [hu, hc.symm, hv]

/-- Past a scope id the peer's address follows the last separator before its own scope id. -/
theorem after_scope_inj {v v' R R' : QString} (hR : AddressText R) (hR' : AddressText R') (hv : '%' ∉ v)
    (hv' : '%' ∉ v') (h : v ++ '|' :: R = v' ++ '|' :: R') : v = v' ∧ R = R' := by
  cases hR with
  | plain hb =>
      have hb := notMem_of_isAddressChar hb
      cases hR' with
      | plain hb' => exact split_last h hb.2 (notMem_of_isAddressChar hb').2
      | withScope hb' hs' =>
          have hnone := percent_notMem_append hv (by decide : '|' ≠ '%') hb.1
          rw [h] at hnone
          simp at hnone
  | @withScope base scope hb hs =>
      have hb := notMem_of_isAddressChar hb
      cases hR' with
      | plain hb' =>
          have hnone := percent_notMem_append hv' (by decide : '|' ≠ '%') (notMem_of_isAddressChar hb').1
          rw [← h] at hnone
          simp at hnone
      | @withScope base' scope' hb' hs' =>
          have hb' := notMem_of_isAddressChar hb'
          have hsplit : (v ++ '|' :: base) ++ '%' :: scope = (v' ++ '|' :: base') ++ '%' :: scope' := by
            simpa using h
          obtain ⟨hbefore, -, hscope⟩ := split_first (p := (· = '%')) hsplit
            (fun x hx e => percent_notMem_append hv (by decide) hb.1 (e ▸ hx))
            (fun x hx e => percent_notMem_append hv' (by decide) hb'.1 (e ▸ hx)) rfl rfl
          obtain ⟨hvv, hbase⟩ := split_last hbefore hb.2 hb'.2
          exact ⟨hvv, by rw [hbase, hscope]⟩

/-- Neither a scope id nor a separator starts here. -/
def Quiet (s : QString) : Prop := ∀ x ∈ s, ¬ (x = '%' ∨ x = '|')

theorem quiet_iff {s : QString} : Quiet s ↔ '%' ∉ s ∧ '|' ∉ s :=
  ⟨fun h => ⟨fun hm => h _ hm (.inl rfl), fun hm => h _ hm (.inr rfl)⟩,
    fun h _ hx e => e.elim (fun e => h.1 (e ▸ hx)) fun e => h.2 (e ▸ hx)⟩

/-- What comes first in a key, a scope id or the separator, tells whether the local address has a scope
id. -/
theorem first_inj {u z base w : QString} (hu : Quiet u) (hbase : Quiet base) :
    u ++ '|' :: z ≠ base ++ '%' :: w := by
  intro h
  obtain ⟨-, hne, -⟩ := split_first h hu hbase (.inr rfl) (.inl rfl)
  exact absurd hne (by decide)

/-- The local address and port, and the remote address, read back. -/
theorem ends_inj {L P R L' P' R' : QString} (hL : AddressText L) (hR : AddressText R)
    (hL' : AddressText L') (hR' : AddressText R') (hP : Quiet P) (hP' : Quiet P')
    (h : (L ++ '.' :: P) ++ '|' :: R = (L' ++ '.' :: P') ++ '|' :: R') :
    L ++ '.' :: P = L' ++ '.' :: P' ∧ R = R' := by
  have hquiet : ∀ {base P : QString}, (∀ c ∈ base, isAddressChar c = true) → Quiet P →
      Quiet (base ++ '.' :: P) := by
    intro base P hb hP
    have hb := notMem_of_isAddressChar hb
    rw [quiet_iff] at hP ⊢
    simp [hb.1, hb.2, hP.1, hP.2]
  -- the first `%` or `|` tells whether the local address has a scope
  cases hL with
  | plain hb =>
      cases hL' with
      | plain hb' =>
          obtain ⟨hends, -, hR⟩ := split_first h (hquiet hb hP) (hquiet hb' hP') (.inr rfl) (.inr rfl)
          exact ⟨hends, hR⟩
      | @withScope base' scope' hb' hs' =>
          refine absurd ?_ (first_inj (z := R) (w := scope' ++ '.' :: P' ++ '|' :: R') (hquiet hb hP)
            (quiet_iff.mpr (notMem_of_isAddressChar hb')))
          simpa using h
  | @withScope base scope hb hs =>
      have hbase := quiet_iff.mpr (notMem_of_isAddressChar hb)
      cases hL' with
      | plain hb' =>
          refine absurd ?_ (first_inj (z := R') (w := scope ++ '.' :: P ++ '|' :: R) (hquiet hb' hP') hbase)
          simpa using h.symm
      | @withScope base' scope' hb' hs' =>
          have hsplit : base ++ '%' :: ((scope ++ '.' :: P) ++ '|' :: R) =
              base' ++ '%' :: ((scope' ++ '.' :: P') ++ '|' :: R') := by simpa using h
          obtain ⟨hbases, -, hrest⟩ := split_first hsplit hbase
            (quiet_iff.mpr (notMem_of_isAddressChar hb')) (.inl rfl) (.inl rfl)
          obtain ⟨hscope, hR⟩ := after_scope_inj hR hR'
            (percent_notMem_append hs (by decide) (quiet_iff.mp hP).1)
            (percent_notMem_append hs' (by decide) (quiet_iff.mp hP').1) hrest
          exact ⟨by simp only [List.append_assoc, List.cons_append, hbases, hscope], hR⟩

/-- The addresses and ports of a key, kept apart by its separators. -/
def endsText (L P R Q : QString) : QString := L ++ '.' :: (P ++ '|' :: (R ++ '.' :: Q))

/-- All four are read back. -/
theorem endsText_inj {L R L' R' : QString} (hL : AddressText L) (hR : AddressText R)
    (hL' : AddressText L') (hR' : AddressText R') {p q p' q' : ℕ}
    (h : endsText L (number p) R (number q) = endsText L' (number p') R' (number q')) :
    L = L' ∧ p = p' ∧ R = R' ∧ q = q' := by
  have hports : ∀ n, Quiet (number n) := fun n =>
    quiet_iff.mpr ⟨(notMem_number n).1, (notMem_number n).2.1⟩
  have hlast : ((L ++ '.' :: number p) ++ '|' :: R) ++ '.' :: number q =
      ((L' ++ '.' :: number p') ++ '|' :: R') ++ '.' :: number q' := by
    simpa [endsText] using h
  -- the last dot stands before the last port, whatever dots an address has
  obtain ⟨hfront, hq⟩ := split_last hlast (notMem_number q).2.2 (notMem_number q').2.2
  obtain ⟨hlocal, hR⟩ := ends_inj hL hR hL' hR' (hports p) (hports p') hfront
  obtain ⟨hL, hp⟩ := split_last hlocal (notMem_number p).2.2 (notMem_number p').2.2
  exact ⟨hL, number_injective hp, hR, number_injective hq⟩

/-! ### The substitutions -/

namespace Connection

variable (l r : Endpoint)

/-- After the local address. -/
theorem endpointsText_eq :
    endpointsText l r = arg (arg (arg (l.address.toString ++ '.' :: "%4|%5.%6".toList)
      (number l.port.toNat)) r.address.toString) (number r.port.toNat) := rfl

/-- The local port goes to its place. -/
theorem arg_localPort {L : QString} (hL : Above 4 L) (p : ℕ) :
    arg (L ++ '.' :: "%4|%5.%6".toList) (number p) = L ++ '.' :: (number p ++ '|' :: "%5.%6".toList) := by
  rw [arg_right bounds_dot hL rfl]
  rfl

theorem lowestMarker_port (p : ℕ) (t : QString) :
    lowestMarker (number p ++ '|' :: t) = lowestMarker t := by
  have hprefix : '%' ∉ number p ++ ['|'] := by simp [(notMem_number p).1]
  rw [← List.singleton_append, ← List.append_assoc]
  exact lowestMarker_append hprefix t

theorem substMarker_port (p n : ℕ) (a t : QString) :
    substMarker n a 0 (number p ++ '|' :: t) = number p ++ '|' :: substMarker n a 0 t := by
  have hprefix : '%' ∉ number p ++ ['|'] := by simp [(notMem_number p).1]
  rw [← List.singleton_append, ← List.append_assoc, substMarker_append hprefix, List.append_assoc]
  rfl

/-- The remote address goes to its place. -/
theorem arg_remoteAddress {L : QString} (hL : Above 5 L) (p : ℕ) (R : QString) :
    arg (L ++ '.' :: (number p ++ '|' :: "%5.%6".toList)) R =
      endsText L (number p) R "%6".toList := by
  have hlow : lowestMarker (number p ++ '|' :: "%5.%6".toList) = some 5 := lowestMarker_port p _
  rw [arg_right bounds_dot hL hlow, arg_eq hlow, substMarker_port]
  rfl

/-- Before the last substitution. -/
theorem endpointsText_of_above (hL : Above 5 l.address.toString) :
    endpointsText l r = arg (endsText l.address.toString (number l.port.toNat) r.address.toString
      "%6".toList) (number r.port.toNat) := by
  rw [endpointsText_eq, arg_localPort (hL.mono (by decide)), arg_remoteAddress hL]

theorem substMarker_endsText (n : ℕ) (a L : QString) (p : ℕ) (R t : QString) :
    substMarker n a 0 (endsText L (number p) R t) =
      endsText (substMarker n a 0 L) (number p) (substMarker n a 0 R) (substMarker n a 0 t) := by
  rw [endsText, substMarker_split bounds_dot n a (Nat.zero_le _), substMarker_port,
    substMarker_split bounds_dot n a (Nat.zero_le _), endsText]

/-- Without markers everything is in its place. -/
theorem endpointsText_of_unmarked (hL : Above 6 l.address.toString) (hR : Above 6 r.address.toString) :
    endpointsText l r = endsText l.address.toString (number l.port.toNat) r.address.toString
      (number r.port.toNat) := by
  have hlow : lowestMarker (endsText l.address.toString (number l.port.toNat) r.address.toString
      "%6".toList) = some 6 := by
    refine lowestMarker_right bounds_dot (fun m hm => (above_iff.mp hL m hm).le) ?_
    rw [lowestMarker_port]
    exact lowestMarker_right bounds_dot (fun m hm => (above_iff.mp hR m hm).le) rfl
  rw [endpointsText_of_above l r (hL.mono (by decide)), arg_eq hlow, substMarker_endsText,
    substMarker_of_above hL, substMarker_of_above hR]
  congr 1
  exact List.append_nil _

end Connection

/-! ### Another spelling of a marker -/

/-- A marker with and without `L`. -/
theorem markerAt_respelled {scope : QString} {n len : ℕ} (h : markerAt ('%' :: scope) = some (n, len)) :
    ∃ scope' len', markerAt ('%' :: scope') = some (n, len') ∧ scope' ≠ scope ∧
      (∀ c, c ∈ scope' → c ∈ scope ∨ c = 'L') ∧ scope'.drop (len' - 1) = scope.drop (len - 1) := by
  by_cases hL : scope.head? = some 'L'
  · -- `%L4` is also spelled `%4`: the digits follow the `L`, so no second one does
    obtain ⟨v, rfl⟩ := List.head?_eq_some_iff.mp hL
    rw [markerAt_L, Option.map_eq_some_iff] at h
    obtain ⟨m, hm, h⟩ := h
    injection h with hn hlen
    have hhead : v.head? ≠ some 'L' := by
      intro e
      cases v with
      | nil => cases hm
      | cons d v =>
          rw [List.head?_cons, Option.some.injEq] at e
          rw [e] at hm
          exact absurd hm (by simp [argDigits, show argDigitValue 'L' = none by decide])
    refine ⟨v, m.2 + 1, ?_, ?_, fun c hc => .inl (List.mem_cons_of_mem _ hc), ?_⟩
    · rw [markerAt_percent hhead, hm, Option.map_some, hn]
    · intro e
      simpa using congrArg List.length e
    · rw [← hlen]
      rfl
  · -- and `%4` is also spelled `%L4`
    rw [markerAt_percent hL, Option.map_eq_some_iff] at h
    obtain ⟨m, hm, h⟩ := h
    injection h with hn hlen
    refine ⟨'L' :: scope, m.2 + 2, ?_, ?_, fun c hc => (List.mem_cons.mp hc).symm, ?_⟩
    · rw [markerAt_L, hm, Option.map_some, hn]
    · intro e
      simpa using congrArg List.length e
    · rw [← hlen]
      rfl

/-- The marker of an address text. -/
theorem AddressText.marker {s : QString} (h : AddressText s) {n : ℕ} (hn : lowestMarker s = some n) :
    ∃ base scope len, s = base ++ '%' :: scope ∧ (∀ c ∈ base, isAddressChar c = true) ∧ '%' ∉ scope ∧
      markerAt ('%' :: scope) = some (n, len) := by
  cases h with
  | plain hb =>
      rw [lowestMarker_of_notMem (notMem_of_isAddressChar hb).1] at hn
      cases hn
  | @withScope base scope hb hs =>
      rw [lowestMarker_append (notMem_of_isAddressChar hb).1, lowestMarker, lowestMarker_of_notMem hs] at hn
      cases hm : markerAt ('%' :: scope) with
      | none =>
          rw [hm] at hn
          cases hn
      | some m =>
          rw [hm] at hn
          exact ⟨base, scope, m.2, rfl, hb, hs, by rw [← Option.some.inj hn, hm]⟩

theorem lowestMarker_scoped {base scope : QString} (hb : ∀ c ∈ base, isAddressChar c = true)
    (hs : '%' ∉ scope) {n len : ℕ} (hm : markerAt ('%' :: scope) = some (n, len)) :
    lowestMarker (base ++ '%' :: scope) = some n := by
  rw [lowestMarker_append (notMem_of_isAddressChar hb).1, lowestMarker, lowestMarker_of_notMem hs, hm]

theorem substMarker_scoped {base scope : QString} (hb : ∀ c ∈ base, isAddressChar c = true)
    (hs : '%' ∉ scope) {n len : ℕ} (hm : markerAt ('%' :: scope) = some (n, len)) (a : QString) :
    substMarker n a 0 (base ++ '%' :: scope) = base ++ (a ++ scope.drop (len - 1)) := by
  rw [substMarker_append (notMem_of_isAddressChar hb).1, substMarker, hm]
  dsimp only
  rw [if_pos rfl, substMarker_of_notMem hs]

/-- Another address text with the same marker, which comes to the same when the marker is substituted. -/
theorem AddressText.respelled {s : QString} (h : AddressText s) {n : ℕ} (hn : lowestMarker s = some n) :
    ∃ s', AddressText s' ∧ s' ≠ s ∧ lowestMarker s' = some n ∧
      ∀ a, substMarker n a 0 s' = substMarker n a 0 s := by
  obtain ⟨base, scope, len, rfl, hb, hs, hm⟩ := h.marker hn
  obtain ⟨scope', len', hm', hne, hmem, hdrop⟩ := markerAt_respelled hm
  have hs' : '%' ∉ scope' := fun hp => (hmem _ hp).elim hs (by decide)
  refine ⟨base ++ '%' :: scope', .withScope hb hs', ?_, lowestMarker_scoped hb hs' hm', fun a => ?_⟩
  · intro e
    rw [List.append_cancel_left_eq, List.cons.injEq] at e
    exact hne e.2
  · rw [substMarker_scoped hb hs' hm', substMarker_scoped hb hs hm, hdrop]

namespace Connection

/-- The text of an address replaced. -/
def respellLocal (c : Connection) (s : QString) : Connection :=
  { c with «local» := { c.local with address := ⟨c.local.address.protocol, s⟩ } }

def respellRemote (c : Connection) (s : QString) : Connection :=
  { c with remote := { c.remote with address := ⟨c.remote.address.protocol, s⟩ } }

/-- A connection with the key of another, of the same kind but of another flow. -/
def Shadowed (a : Connection) : Prop :=
  ∃ b : Connection, b.AddressTexts ∧ ¬ b.Unmarked ∧ a.key = b.key ∧ ¬ a.SameFlow b

/-- A marker in the local address is put in its place by the first or the second substitution after it. -/
theorem shadowed_of_local {a : Connection} (ha : a.AddressTexts) {n : ℕ}
    (hn : lowestMarker a.local.address.toString = some n) (hle : n ≤ 5) : a.Shadowed := by
  obtain ⟨s', haddress, hne, hn', hsame⟩ := ha.1.respelled hn
  refine ⟨a.respellLocal s', ⟨haddress, ha.2⟩, ?_, key_inj_iff.mpr ⟨rfl, rfl, ?_⟩, fun h =>
    hne h.localAddress.symm⟩
  · intro h
    have hlt := above_iff.mp h.1 n hn'
    omega
  · rw [endpointsText_eq, endpointsText_eq]
    by_cases h5 : n = 5
    · -- the port takes the template's `%4`, so the marker waits for the remote address
      have habove : ∀ {s}, lowestMarker s = some n → Above 4 s := fun {s} hs =>
        above_iff.mpr fun m hm => by rw [hs] at hm; cases hm; omega
      have hlow : lowestMarker (number a.local.port.toNat ++ '|' :: "%5.%6".toList) = some n := by
        rw [lowestMarker_port, h5]
        rfl
      rw [arg_localPort (habove hn)]
      simp only [respellLocal]
      rw [arg_localPort (habove hn')]
      congr 1
      exact (arg_left_congr bounds_dot hn hn' (hsame _) fun m hm => by
        rw [hlow] at hm; cases hm; exact le_rfl).symm
    · -- the port takes the marker, which is no higher than the template's `%4`
      congr 2
      refine (arg_left_congr bounds_dot hn hn' (hsame _) fun m hm => ?_).symm
      have h4 : m = 4 := (Option.some.inj hm).symm
      omega

/-- Behind a local address without a marker below 6, one in the remote address is replaced at last. -/
theorem shadowed_of_remote {a : Connection} (ha : a.AddressTexts) (hL : Above 5 a.local.address.toString)
    {n : ℕ} (hn : lowestMarker a.remote.address.toString = some n) (hle : n ≤ 6) : a.Shadowed := by
  obtain ⟨s', haddress, hne, hn', hsame⟩ := ha.2.respelled hn
  refine ⟨a.respellRemote s', ⟨ha.1, haddress⟩, ?_, key_inj_iff.mpr ⟨rfl, rfl, ?_⟩, fun h =>
    hne h.remoteAddress.symm⟩
  · intro h
    have hlt := above_iff.mp h.2 n hn'
    omega
  · have hlow : ∀ {R : QString}, lowestMarker R = some n → lowestMarker (endsText a.local.address.toString
        (number a.local.port.toNat) R "%6".toList) = some n := by
      intro R hR
      refine lowestMarker_right bounds_dot (fun m hm => ?_) ?_
      · have hlt := above_iff.mp hL m hm
        omega
      · rw [lowestMarker_port]
        refine lowestMarker_left bounds_dot hR fun m hm => ?_
        have h6 : m = 6 := (Option.some.inj hm).symm
        omega
    rw [endpointsText_of_above _ _ hL, arg_eq (hlow hn)]
    simp only [respellRemote]
    rw [endpointsText_of_above _ _ hL, arg_eq (hlow hn'), substMarker_endsText, substMarker_endsText, hsame]

/-- A marker 6 of the local address is replaced at last, if the remote address has none. -/
theorem shadowed_of_local_last {a : Connection} (ha : a.AddressTexts)
    (hL : lowestMarker a.local.address.toString = some 6) (hR : Above 6 a.remote.address.toString) :
    a.Shadowed := by
  obtain ⟨s', haddress, hne, hL', hsame⟩ := ha.1.respelled hL
  have habove : ∀ {s}, lowestMarker s = some 6 → Above 5 s := fun {s} hs =>
    above_iff.mpr fun m hm => by rw [hs] at hm; cases hm; decide
  refine ⟨a.respellLocal s', ⟨haddress, ha.2⟩, ?_, key_inj_iff.mpr ⟨rfl, rfl, ?_⟩, fun h =>
    hne h.localAddress.symm⟩
  · intro h
    exact absurd (above_iff.mp h.1 6 hL') (by decide)
  · have hlow : lowestMarker (number a.local.port.toNat ++
        '|' :: (a.remote.address.toString ++ '.' :: "%6".toList)) = some 6 := by
      rw [lowestMarker_port]
      exact lowestMarker_right bounds_dot (fun m hm => (above_iff.mp hR m hm).le) rfl
    rw [endpointsText_of_above _ _ (habove hL)]
    simp only [respellLocal]
    rw [endpointsText_of_above _ _ (habove hL')]
    refine (arg_left_congr bounds_dot hL hL' (hsame _) fun m hm => ?_).symm
    rw [hlow] at hm
    cases hm
    exact le_rfl

/-- A connection with a low marker shares its key. -/
theorem shadowed_of_marked {a : Connection} (ha : a.AddressTexts) (h : ¬ a.Unmarked) : a.Shadowed := by
  -- in the order in which markers are taken: the local ones below 6, the remote ones, a local 6
  by_cases hL : Above 5 a.local.address.toString
  · by_cases hR : Above 6 a.remote.address.toString
    · obtain ⟨n, hn, hle⟩ := not_above_iff.mp fun hL6 => h ⟨hL6, hR⟩
      have hlt := above_iff.mp hL n hn
      obtain rfl : n = 6 := by omega
      exact shadowed_of_local_last ha hn hR
    · obtain ⟨n, hn, hle⟩ := not_above_iff.mp hR
      exact shadowed_of_remote ha hL hn hle
  · obtain ⟨n, hn, hle⟩ := not_above_iff.mp hL
    exact shadowed_of_local ha hn hle

/-- Connections without low markers have keys of their own. -/
theorem sameFlow_of_unmarked {a b : Connection} (ha : a.AddressTexts) (hb : b.AddressTexts)
    (hua : a.Unmarked) (hub : b.Unmarked) (h : a.key = b.key) : a.SameFlow b := by
  obtain ⟨hproto, hdirection, hends⟩ := key_inj_iff.mp h
  rw [endpointsText_of_unmarked _ _ hua.1 hua.2, endpointsText_of_unmarked _ _ hub.1 hub.2] at hends
  obtain ⟨hL, hp, hR, hq⟩ := endsText_inj ha.1 ha.2 hb.1 hb.2 hends
  exact ⟨hproto, hdirection, hL, UInt16.toNat_inj.mp hp, hR, UInt16.toNat_inj.mp hq⟩

/-- **When a key tells its flow**: exactly for the connections without low markers is it the key of no
other flow of a connection alike. -/
theorem key_own_iff (a : Connection) (ha : a.AddressTexts) :
    (∀ b : Connection, b.AddressTexts → (b.Unmarked ↔ a.Unmarked) → a.key = b.key → a.SameFlow b) ↔
      a.Unmarked := by
  constructor
  · intro h
    by_contra hmarked
    obtain ⟨b, hb, hmarked', hkey, hother⟩ := shadowed_of_marked ha hmarked
    exact hother (h b hb ⟨fun e => absurd e hmarked', fun e => absurd e hmarked⟩ hkey)
  · intro hu b hb halike hkey
    exact sameFlow_of_unmarked ha hb hu (halike.mpr hu) hkey

/-- A link-local flow on interface 4. -/
def scopedFlow : Connection where
  «local» := { address := ⟨.IPv6Protocol, "fe80::1%4".toList⟩, port := 5 }
  remote := { address := ⟨.IPv6Protocol, "fe80::2".toList⟩, port := 443 }

/-- A flow of another host. -/
def plainFlow : Connection where
  «local» := { address := ⟨.IPv6Protocol, "fe80::15".toList⟩, port := 5 }
  remote := { address := ⟨.IPv6Protocol, "fe80::2".toList⟩, port := 443 }

theorem addressTexts_plainFlow : plainFlow.AddressTexts :=
  ⟨.plain (List.all_eq_true.mp rfl), .plain (List.all_eq_true.mp rfl)⟩

theorem addressTexts_scopedFlow : scopedFlow.AddressTexts := by
  have hlocal : AddressText ("fe80::1".toList ++ '%' :: "4".toList) :=
    .withScope (List.all_eq_true.mp rfl) (by decide)
  exact ⟨hlocal, .plain (List.all_eq_true.mp rfl)⟩

theorem key_own_iff_plainFlow :
    (∀ b : Connection, b.AddressTexts → (b.Unmarked ↔ plainFlow.Unmarked) → plainFlow.key = b.key →
      plainFlow.SameFlow b) ↔ plainFlow.Unmarked :=
  key_own_iff plainFlow addressTexts_plainFlow

/-- The two have one key. -/
theorem scoped_key_shared :
    ¬ ∀ a b : Connection, a.AddressTexts → b.AddressTexts → a.key = b.key → a.SameFlow b := by
  intro h
  have hsame := h scopedFlow plainFlow addressTexts_scopedFlow addressTexts_plainFlow (by decide)
  exact absurd hsame.localAddress (by decide)

end Connection

end Qiftop.Backend
