import Mathlib.Data.Rat.Floor
import Qiftop.Lib.Significand
import Qiftop.Util.HandoffServer

/-!
# Util — statistics in the hand-over

`HandoffClient::sendStats` writes `STATS`, a tab and a JSON text as one line, and the server's
`dispatch` reads it: `handoff::encodeStats` and `handoff::decodeStats` of `util/HandoffServer.cpp`.
A JSON number is a `double`, here its exact value; a `quint64` becomes one by rounding to 53 bits.
The conversion back is undefined from 2⁶⁴ on (`none`).

`QJsonDocument` is a parameter (`QJsonDocument.Ops`): what is used of it is that its compact text has
no control characters, and that parsing it gives the document back.

* `toQuint64_toDouble_iff`: a counter comes back if and only if it has at most 53 significant bits.
* `stats_survive_iff`: so does a list of statistics.
-/

namespace Qiftop.Util
open Qt Lib

/-! ### JSON values -/

inductive QJsonValue where
  | undefined
  | null
  | bool (b : Bool)
  | double (x : ℚ)
  | string (s : QString)
  | array (vs : List QJsonValue)
  /-- The members in the order of their keys. -/
  | object (members : List (QString × QJsonValue))

namespace QJsonValue

def toBool : QJsonValue → Bool
  | bool b => b
  | _ => false

def toDouble : QJsonValue → ℚ
  | double x => x
  | _ => 0

def toString : QJsonValue → QString
  | string s => s
  | _ => []

def toArray : QJsonValue → List QJsonValue
  | array vs => vs
  | _ => []

def toObject : QJsonValue → List (QString × QJsonValue)
  | object members => members
  | _ => []

end QJsonValue

namespace QJsonObject

/-- `QJsonObject::insert`. -/
def insert (o : List (QString × QJsonValue)) (key : QString) (v : QJsonValue) :
    List (QString × QJsonValue) :=
  match o with
  | [] => [(key, v)]
  | (k, w) :: o =>
      if key = k then (key, v) :: o
      else if key < k then (key, v) :: (k, w) :: o
      else (k, w) :: insert o key v

/-- `QJsonObject::value`. -/
def value (o : List (QString × QJsonValue)) (key : QString) : QJsonValue :=
  ((o.find? fun e => e.1 = key).map Prod.snd).getD .undefined

end QJsonObject

/-- `QJsonDocument`: the compact text of an object, and the parser. -/
structure QJsonDocument.Ops where
  toJson : List (QString × QJsonValue) → QByteArray
  fromJson : QByteArray → Option QJsonValue

/-! ### Counters and doubles -/

/-- `double(n)`. -/
def toDouble (n : UInt64) : ℚ := (roundBits 53 n.toNat : ℕ)

/-- `quint64(x)`: the integer part, where there is such a `quint64`. -/
def toQuint64 (x : ℚ) : Option UInt64 :=
  if -1 < x ∧ x < 2 ^ 64 then some (UInt64.ofNat ⌊x⌋.toNat) else none

/-- **A counter comes back** if and only if 53 bits are enough for it. -/
theorem toQuint64_toDouble_iff (n : UInt64) :
    toQuint64 (toDouble n) = some n ↔ Fits 53 n.toNat := by
  rw [← roundBits_eq_self_iff, toQuint64, toDouble]
  have hneg : (-1 : ℚ) < (roundBits 53 n.toNat : ℕ) := by
    have : (0 : ℚ) ≤ (roundBits 53 n.toNat : ℕ) := Nat.cast_nonneg _
    linarith
  have hcast : ((roundBits 53 n.toNat : ℕ) : ℚ) < 2 ^ 64 ↔ roundBits 53 n.toNat < 2 ^ 64 := by
    exact_mod_cast Iff.rfl
  simp only [hneg, hcast, true_and, Int.floor_natCast, Int.toNat_natCast]
  constructor
  · intro h
    split at h
    · rename_i hlt
      have := congrArg UInt64.toNat (Option.some.inj h)
      rwa [UInt64.toNat_ofNat_of_lt' hlt] at this
    · cases h
  · intro h
    rw [h, if_pos n.toNat_lt, UInt64.ofNat_toNat]

/-! ### Encoding and decoding -/

/-- The fields of `InterfaceStats` that are handed over. -/
structure InterfaceStats where
  name : QString := []
  rxBytes : UInt64 := 0
  txBytes : UInt64 := 0
  isLoopback : Bool := false
  isUp : Bool := false
  deriving DecidableEq, Repr

/-- The object of one interface. -/
def encodeItem (s : InterfaceStats) : QJsonValue :=
  let o := QJsonObject.insert [] "n".toList (.string s.name)
  let o := QJsonObject.insert o "r".toList (.double (toDouble s.rxBytes))
  let o := QJsonObject.insert o "t".toList (.double (toDouble s.txBytes))
  let o := QJsonObject.insert o "l".toList (.bool s.isLoopback)
  let o := QJsonObject.insert o "u".toList (.bool s.isUp)
  .object o

/-- The document of a list of interfaces. -/
def statsRoot (stats : List InterfaceStats) : List (QString × QJsonValue) :=
  QJsonObject.insert [] "items".toList (.array (stats.map encodeItem))

/-- One element of the array; nothing where a conversion is undefined. -/
def decodeItem (v : QJsonValue) : Option InterfaceStats := do
  let o := v.toObject
  let rxBytes ← toQuint64 (QJsonObject.value o "r".toList).toDouble
  let txBytes ← toQuint64 (QJsonObject.value o "t".toList).toDouble
  return {
    name := (QJsonObject.value o "n".toList).toString
    rxBytes
    txBytes
    isLoopback := (QJsonObject.value o "l".toList).toBool
    isUp := (QJsonObject.value o "u".toList).toBool }

section
variable (J : QJsonDocument.Ops)

def encodeStats (stats : List InterfaceStats) : QByteArray := J.toJson (statsRoot stats)

def decodeStats (payload : QByteArray) : Option (List InterfaceStats) :=
  match J.fromJson payload with
  | some (.object root) => (QJsonObject.value root "items".toList).toArray.mapM decodeItem
  | _ => some []

/-- The line of `sendStats`, without its line feed. -/
def statsLine (stats : List InterfaceStats) : QByteArray := ascii "STATS\t" ++ encodeStats J stats

/-- What the protocol needs of `QJsonDocument` for these statistics. -/
structure QJsonDocument.Ops.Inverts (stats : List InterfaceStats) : Prop where
  /-- The compact text has no control characters. -/
  compact : ∀ b ∈ J.toJson (statsRoot stats), 32 ≤ b
  /-- The parser gives back what was written. -/
  fromJson_toJson : J.fromJson (J.toJson (statsRoot stats)) = some (.object (statsRoot stats))

variable {J}

theorem decodeItem_encodeItem (s : InterfaceStats) :
    decodeItem (encodeItem s) = (do
      let rxBytes ← toQuint64 (toDouble s.rxBytes)
      let txBytes ← toQuint64 (toDouble s.txBytes)
      return { s with rxBytes, txBytes }) := rfl

/-- One interface comes back if and only if its counters do. -/
theorem decodeItem_encodeItem_iff (s : InterfaceStats) :
    decodeItem (encodeItem s) = some s ↔ Fits 53 s.rxBytes.toNat ∧ Fits 53 s.txBytes.toNat := by
  rw [decodeItem_encodeItem, ← toQuint64_toDouble_iff, ← toQuint64_toDouble_iff]
  cases hrx : toQuint64 (toDouble s.rxBytes) with
  | none => simp
  | some rx =>
      cases htx : toQuint64 (toDouble s.txBytes) with
      | none => simp
      | some tx =>
          obtain ⟨name, rxBytes, txBytes, isLoopback, isUp⟩ := s
          simp

theorem mapM_map_eq_some_iff {α β : Type} {f : α → β} {g : β → Option α} {as : List α} :
    (as.map f).mapM g = some as ↔ ∀ a ∈ as, g (f a) = some a := by
  induction as with
  | nil => simp
  | cons a as ih =>
      rw [List.map_cons, List.mapM_cons, List.forall_mem_cons, ← ih]
      cases g (f a) <;> cases (as.map f).mapM g <;> simp

theorem decodeStats_encodeStats_iff {stats : List InterfaceStats} (hJ : J.Inverts stats) :
    decodeStats J (encodeStats J stats) = some stats ↔
      ∀ s ∈ stats, Fits 53 s.rxBytes.toNat ∧ Fits 53 s.txBytes.toNat := by
  have hitems : (QJsonObject.value (statsRoot stats) "items".toList).toArray =
      stats.map encodeItem := rfl
  rw [decodeStats, encodeStats, hJ.fromJson_toJson]
  dsimp only
  rw [hitems, mapM_map_eq_some_iff]
  exact forall₂_congr fun s _ => decodeItem_encodeItem_iff s

/-- The line is `STATS`, a tab and the text. -/
theorem verbOf_statsLine (stats : List InterfaceStats) :
    verbOf (statsLine J stats) = ascii "STATS" ∧
      payloadOf (statsLine J stats) = encodeStats J stats :=
  ⟨rfl, rfl⟩

theorem lf_notMem_statsLine {stats : List InterfaceStats} (hJ : J.Inverts stats) :
    lf ∉ statsLine J stats := by
  rw [statsLine, List.mem_append, not_or]
  exact ⟨by decide, fun h => absurd (hJ.compact _ h) (by decide)⟩

/-- **When statistics survive the hand-over**: the line holds no line feed, so that the server reads
it as it was written; and `dispatch` of it signals the same statistics if and only if every byte
counter has at most 53 significant bits. -/
theorem stats_survive_iff {stats : List InterfaceStats} (hJ : J.Inverts stats) (s : HandoffServer)
    (c : ℕ) (react : List (Command × Bool)) (rest : QByteArray) :
    lf ∉ statsLine J stats ∧ takeLine (statsLine J stats ++ lf :: rest) = some (statsLine J stats, rest) ∧
      ((s.dispatch (decodeStats J) c (statsLine J stats) react).2.head? =
          some (.signal c (.childStats (some stats))) ↔
        ∀ x ∈ stats, Fits 53 x.rxBytes.toNat ∧ Fits 53 x.txBytes.toNat) := by
  have hlf := lf_notMem_statsLine hJ
  refine ⟨hlf, takeLine_append hlf rest, ?_⟩
  obtain ⟨hverb, hpayload⟩ := verbOf_statsLine (J := J) stats
  have hsignal : signalOf (decodeStats J) (statsLine J stats) =
      some (.childStats (decodeStats J (encodeStats J stats))) := by
    rw [signalOf, hverb, hpayload]
    rfl
  have hne : statsLine J stats ≠ [] := by simp [statsLine, ascii, toLatin1]
  rw [HandoffServer.dispatch, if_neg hne, hsignal, ← decodeStats_encodeStats_iff hJ]
  simp

end

/-! ### Runs -/

/-- A `QJsonDocument` that has written `text` for these statistics. -/
def QJsonDocument.Ops.ofText (stats : List InterfaceStats) (text : String) : QJsonDocument.Ops where
  toJson _ := ascii text
  fromJson payload := if payload = ascii text then some (.object (statsRoot stats)) else none

theorem QJsonDocument.Ops.inverts_ofText {stats : List InterfaceStats} {text : String}
    (h : ∀ b ∈ ascii text, 32 ≤ b) : (ofText stats text).Inverts stats :=
  ⟨h, if_pos rfl⟩

def loStats (rxBytes : UInt64) : List InterfaceStats :=
  [{ name := "lo".toList, rxBytes, txBytes := 7, isLoopback := true, isUp := true }]

/-- What Qt writes for a counter of 2⁵³ or of 2⁵³ + 1. -/
def loText : String :=
  "\x7b\"items\":[\x7b\"l\":true,\"n\":\"lo\",\"r\":9007199254740992,\"t\":7,\"u\":true\x7d]\x7d"

theorem loText_plain : ∀ b ∈ ascii loText, 32 ≤ b := by
  decide +kernel

theorem two_pow_53_survives :
    let stats := loStats 9007199254740992
    let J := QJsonDocument.Ops.ofText stats loText
    (HandoffServer.dispatch (decodeStats J) ⟨[], 0, some 0, false, false, [], true, 1⟩ 0
      (statsLine J stats) []).2.head? = some (.signal 0 (.childStats (some stats))) := by
  intro stats J
  refine (stats_survive_iff (QJsonDocument.Ops.inverts_ofText loText_plain) _ 0 [] []).2.2.mpr ?_
  simp only [stats, loStats, List.mem_singleton, forall_eq]
  exact ⟨⟨1, 53, by decide, by decide⟩, ⟨7, 0, by decide, by decide⟩⟩

/-- **A byte is lost**: a counter of 2⁵³ + 1 arrives as 2⁵³. -/
theorem two_pow_53_succ_lost :
    let stats := loStats 9007199254740993
    let J := QJsonDocument.Ops.ofText stats loText
    (HandoffServer.dispatch (decodeStats J) ⟨[], 0, some 0, false, false, [], true, 1⟩ 0
      (statsLine J stats) []).2.head? = some (.signal 0 (.childStats (some (loStats 9007199254740992)))) ∧
      loStats 9007199254740992 ≠ stats := by
  decide +kernel

end Qiftop.Util
