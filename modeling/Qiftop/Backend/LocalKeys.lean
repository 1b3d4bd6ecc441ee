import Mathlib.Data.Finset.Union
import Qiftop.Lib.Run
import Qiftop.Backend.NetnsScanner

/-!
# Backend — sockets by their local ends

Whatever the kernel reports, in whatever order and chunks: as long as the table has room for all keys,
a local key is bound to an inode exactly when every socket under it has this inode, and to the mark when
two differ.  So the fallback of a lookup answers only for a local end or a wildcard that one socket owns,
and the two resolvers answer alike from the same tables.

The entry of a local key is what the inodes that came under it agree on (`lookup_indexAll`); flow keys
never get in the way, their lengths are others.
-/

namespace Qiftop.Backend
open Lib

namespace SockDiag

theorem toUInt64_ne_zero {inode : UInt32} (h : inode ≠ 0) : inode.toUInt64 ≠ kAmbiguousLocalInode := by
  intro hzero
  have hnat := congrArg UInt64.toNat hzero
  rw [UInt32.toNat_toUInt64] at hnat
  exact h (UInt32.toNat_inj.mp hnat)

/-- A socket as a dump reports it. -/
structure Diag where
  proto : UInt8
  msg : InetDiagMsg
  deriving DecidableEq, Repr

namespace Diag

def inode (d : Diag) : UInt64 := d.msg.inode.toUInt64

/-- The local keys a socket is indexed under; none without an inode. -/
def localKeys (d : Diag) : List QByteArray :=
  if d.msg.inode = 0 then []
  else makeLocalKey d.proto d.msg.local d.msg.sport ::
    (d.msg.local4.map fun l4 => makeLocalKey d.proto (.v4 l4) d.msg.sport).toList

/-- The flow keys a socket is indexed under. -/
def flowKeys (d : Diag) : List QByteArray :=
  if d.msg.inode = 0 then []
  else makeFlowKey d.proto d.msg.local d.msg.sport d.msg.remote d.msg.dport ::
    (d.msg.local4.bind fun l4 => d.msg.remote.toIPv4Address.map fun r4 =>
      makeFlowKey d.proto (.v4 l4) d.msg.sport (.v4 r4) d.msg.dport).toList

def keys (d : Diag) : Finset QByteArray := (d.flowKeys ++ d.localKeys).toFinset

theorem inode_ne_zero {d : Diag} {k : QByteArray} (h : k ∈ d.localKeys) :
    d.inode ≠ kAmbiguousLocalInode := by
  refine toUInt64_ne_zero fun hinode => ?_
  rw [localKeys, if_pos hinode] at h
  cases h

end Diag

/-- A socket enters the table. -/
def index (t : SocketTable) (d : Diag) : SocketTable := indexSocket d.proto t d.msg

/-! ### One socket -/

/-- What a local key's entry becomes by a socket. -/
def tell (k : QByteArray) (cell : Option UInt64) (d : Diag) : Option UInt64 :=
  d.localKeys.foldl (fun cell key => if k = key then agree kAmbiguousLocalInode cell d.inode else cell) cell

/-- What one local key of a socket does to the entry of `k`. -/
theorem lookup_insertLocalKey_foldl {t : SocketTable} {key : QByteArray} (h : ¬ t.Full key)
    (inode : UInt64) (k : QByteArray) :
    (insertLocalKey t key inode).lookup k =
      [key].foldl (fun cell key => if k = key then agree kAmbiguousLocalInode cell inode else cell)
        (t.lookup k) :=
  lookup_insertLocalKey h inode k

/-- A flow key changes no local key. -/
theorem lookup_insert_flowKey {t : SocketTable} {proto : UInt8} {localAddr remoteAddr : HostAddress}
    {localPort remotePort : UInt16}
    (hroom : ¬ t.Full (makeFlowKey proto localAddr localPort remoteAddr remotePort)) (inode : UInt64)
    (proto' : UInt8) (addr : HostAddress) (port : UInt16) :
    (t.insert (makeFlowKey proto localAddr localPort remoteAddr remotePort) inode hroom).lookup
      (makeLocalKey proto' addr port) = t.lookup (makeLocalKey proto' addr port) := by
  rw [SocketTable.lookup_insert, if_neg]
  exact fun h => makeFlowKey_ne_makeLocalKey _ _ _ _ _ _ _ _ h.symm

section Index
variable {keys : Finset QByteArray} (hcard : keys.card ≤ kMaxSocketEntries) {t : SocketTable}
  (ht : t.Within keys) {d : Diag} (hd : d.keys ⊆ keys)
include hcard ht hd

theorem indexDualStack_spec (hinode : d.msg.inode ≠ 0) :
    (indexDualStack d.proto t d.msg).Within keys ∧ ∀ proto addr port,
      (indexDualStack d.proto t d.msg).lookup (makeLocalKey proto addr port) =
        (d.msg.local4.map fun l4 => makeLocalKey d.proto (.v4 l4) d.msg.sport).toList.foldl
          (fun cell key => if makeLocalKey proto addr port = key
            then agree kAmbiguousLocalInode cell d.inode else cell)
          (t.lookup (makeLocalKey proto addr port)) := by
  unfold indexDualStack
  cases hl4 : d.msg.local4 with
  | none => exact ⟨ht, fun _ _ _ => rfl⟩
  | some l4 =>
      have hlocal : makeLocalKey d.proto (.v4 l4) d.msg.sport ∈ keys :=
        hd (by simp [Diag.keys, Diag.localKeys, hinode, hl4])
      cases hr4 : d.msg.remote.toIPv4Address with
      | none =>
          exact ⟨ht.insertLocalKey hlocal _, fun proto addr port =>
            lookup_insertLocalKey_foldl (ht.not_full hcard hlocal) _ _⟩
      | some r4 =>
          have hflow : makeFlowKey d.proto (.v4 l4) d.msg.sport (.v4 r4) d.msg.dport ∈ keys :=
            hd (by simp [Diag.keys, Diag.flowKeys, hinode, hl4, hr4])
          have hfull := ht.not_full hcard hflow
          have ht' := ht.insert hflow d.msg.inode.toUInt64 hfull
          dsimp only
          rw [dif_pos (SocketTable.not_full_iff.mp hfull)]
          refine ⟨ht'.insertLocalKey hlocal _, fun proto addr port => ?_⟩
          rw [lookup_insertLocalKey_foldl (ht'.not_full hcard hlocal), lookup_insert_flowKey]
          rfl

/-- A socket tells the local keys it is indexed under, and no others. -/
theorem index_spec :
    (index t d).Within keys ∧ ∀ proto addr port,
      (index t d).lookup (makeLocalKey proto addr port) =
        tell (makeLocalKey proto addr port) (t.lookup (makeLocalKey proto addr port)) d := by
  unfold index indexSocket tell Diag.localKeys
  by_cases hinode : d.msg.inode = 0
  · rw [if_pos hinode, if_pos hinode]
    exact ⟨ht, fun _ _ _ => rfl⟩
  · have hflow : makeFlowKey d.proto d.msg.local d.msg.sport d.msg.remote d.msg.dport ∈ keys :=
      hd (by simp [Diag.keys, Diag.flowKeys, hinode])
    have hlocal : makeLocalKey d.proto d.msg.local d.msg.sport ∈ keys :=
      hd (by simp [Diag.keys, Diag.localKeys, hinode])
    have hfull := ht.not_full hcard hflow
    have ht₁ := ht.insert hflow d.msg.inode.toUInt64 hfull
    have ht₂ := ht₁.insertLocalKey hlocal d.msg.inode.toUInt64
    obtain ⟨hwithin, hlookup⟩ := indexDualStack_spec hcard ht₂ hd hinode
    rw [if_neg hinode, if_neg hinode]
    dsimp only
    rw [dif_neg hfull]
    refine ⟨hwithin, fun proto addr port => ?_⟩
    rw [hlookup, lookup_insertLocalKey_foldl (ht₁.not_full hcard hlocal), lookup_insert_flowKey]
    rfl

end Index

/-! ### All sockets -/

/-- The inodes that come under a local key, in order. -/
def inodesUnder (k : QByteArray) (ds : List Diag) : List UInt64 :=
  ds.flatMap fun d => (d.localKeys.filter fun key => k = key).map fun _ => d.inode

theorem foldl_tell (k : QByteArray) (ds : List Diag) (cell : Option UInt64) :
    ds.foldl (tell k) cell = (inodesUnder k ds).foldl (agree kAmbiguousLocalInode) cell := by
  rw [inodesUnder, List.foldl_flatMap]
  congr 1
  funext cell d
  rw [tell, List.foldl_map, List.foldl_filter]
  simp only [decide_eq_true_eq]

theorem mem_inodesUnder {k : QByteArray} {ds : List Diag} {i : UInt64} :
    i ∈ inodesUnder k ds ↔ ∃ d ∈ ds, k ∈ d.localKeys ∧ d.inode = i := by
  simp only [inodesUnder, List.mem_flatMap, List.mem_map, List.mem_filter, decide_eq_true_eq]
  constructor
  · rintro ⟨d, hd, key, ⟨hkey, rfl⟩, rfl⟩
    exact ⟨d, hd, hkey, rfl⟩
  · rintro ⟨d, hd, hkey, rfl⟩
    exact ⟨d, hd, k, ⟨hkey, rfl⟩, rfl⟩

/-- The entry of a local key is what the inodes under it agree on. -/
theorem lookup_indexAll {ds : List Diag} {keys : Finset QByteArray}
    (hcard : keys.card ≤ kMaxSocketEntries) (hds : ∀ d ∈ ds, d.keys ⊆ keys) (proto : UInt8)
    (addr : HostAddress) (port : UInt16) :
    (ds.foldl index {}).lookup (makeLocalKey proto addr port) =
      agreed kAmbiguousLocalInode (inodesUnder (makeLocalKey proto addr port) ds) := by
  suffices h : ∀ t : SocketTable, t.Within keys →
      (ds.foldl index t).lookup (makeLocalKey proto addr port) =
        ds.foldl (tell (makeLocalKey proto addr port)) (t.lookup (makeLocalKey proto addr port)) by
    rw [h {} (SocketTable.within_empty keys), foldl_tell]
    rfl
  induction ds with
  | nil => exact fun _ _ => rfl
  | cons d ds ih =>
      intro t ht
      obtain ⟨hwithin, hlookup⟩ := index_spec hcard ht (hds d List.mem_cons_self)
      rw [List.foldl_cons, List.foldl_cons, ← hlookup]
      exact ih (fun e he => hds e (List.mem_cons_of_mem d he)) _ hwithin

/-! ### Chunks -/

/-- A chunk as it was received, in a dump of this protocol. -/
structure Chunk where
  buf : Window
  proto : UInt8
  small : buf.size < 2 ^ 31

section Chunks
variable (host : ByteOrder)

def Chunk.diags (c : Chunk) : List Diag := (sockets host c.buf).map (Diag.mk c.proto)

/-- Chunk after chunk, into one table. -/
def parseChunks (chunks : List Chunk) (outMap : SocketTable) : Except Fault SocketTable :=
  chunks.foldlM (fun outMap c =>
    (parseDumpChunk host c.buf c.proto outMap (c.buf.size + 1)).map ParsedChunk.outMap) outMap

/-- The chunks add their sockets, in order. -/
theorem parseChunks_eq (chunks : List Chunk) (outMap : SocketTable) :
    parseChunks host chunks outMap =
      .ok ((chunks.flatMap (Chunk.diags host)).foldl index outMap) := by
  induction chunks generalizing outMap with
  | nil => rfl
  | cons c chunks ih =>
      have hchunk : (outcome host c.buf c.proto (messages host c.buf) outMap).outMap =
          (c.diags host).foldl index outMap := by
        rw [outcome_outMap, Chunk.diags, List.foldl_map]
        rfl
      rw [parseChunks, List.foldlM_cons,
        parseDumpChunk_eq_outcome host c.buf c.small c.proto outMap (Nat.lt_succ_self _),
        List.flatMap_cons, List.foldl_append, ← hchunk]
      exact ih _

end Chunks

/-! ### Flow keys -/

/-- Every other entry than a mark under a local key is a socket. -/
def SocketTable.Real (t : SocketTable) : Prop :=
  ∀ key, isLocalKey key = false → t.lookup key ≠ some kAmbiguousLocalInode

theorem SocketTable.Real.insert {t : SocketTable} (h : t.Real) {key : QByteArray} {inode : UInt64}
    (hkey : isLocalKey key = true ∨ inode ≠ kAmbiguousLocalInode) (hroom : ¬ t.Full key) :
    (t.insert key inode hroom).Real := by
  intro k hk
  rw [lookup_insert]
  split
  · next heq =>
      rcases hkey with hlocal | hinode
      · rw [← heq, hk] at hlocal
        cases hlocal
      · exact fun e => hinode (Option.some.inj e)
  · exact h k hk

theorem SocketTable.Real.insertLocalKey {t : SocketTable} (h : t.Real) (proto : UInt8)
    (addr : HostAddress) (port : UInt16) (inode : UInt64) :
    (insertLocalKey t (makeLocalKey proto addr port) inode).Real := by
  unfold SockDiag.insertLocalKey
  split
  · split
    · exact h.insert (.inl rfl) _
    · exact h
  · split
    · exact h.insert (.inl rfl) _
    · exact h

theorem SocketTable.Real.index {t : SocketTable} (h : t.Real) (d : Diag) : (index t d).Real := by
  unfold SockDiag.index indexSocket
  split
  · exact h
  · next hinode =>
      have hreal := toUInt64_ne_zero hinode
      dsimp only
      split
      · exact h
      · next hroom =>
        have h₁ : (t.insert (makeFlowKey d.proto d.msg.local d.msg.sport d.msg.remote d.msg.dport)
            d.msg.inode.toUInt64 hroom).Real := h.insert (.inr hreal) hroom
        have h₂ := h₁.insertLocalKey d.proto d.msg.local d.msg.sport d.msg.inode.toUInt64
        unfold indexDualStack
        split
        · exact h₂
        · dsimp only
          split
          · split
            · exact (h₂.insert (.inr hreal) _).insertLocalKey _ _ _ _
            · exact h₂.insertLocalKey _ _ _ _
          · exact h₂.insertLocalKey _ _ _ _

/-- A dump enters flow keys with the inodes of sockets. -/
theorem parseChunks_real {host : ByteOrder} {chunks : List Chunk} {t : SocketTable}
    (h : parseChunks host chunks {} = .ok t) : t.Real := by
  rw [parseChunks_eq] at h
  rw [← Except.ok.inj h]
  refine foldl_invariant (fun t d ht => ht.index d) ?_ _
  intro key _ hkey
  cases hkey

end SockDiag

/-! ### What follows for lookups -/

open SockDiag

/-- A socket is indexed under the local end of a flow, or under its wildcard. -/
def SockFlow.Under (flow : SockFlow) (d : Diag) : Prop :=
  flow.localKey ∈ d.localKeys ∨ flow.wildcardKey ∈ d.localKeys

/-- What local keys mean, for these sockets and their table. -/
structure LocalKeysSound (ds : Multiset Diag) (t : SocketTable) : Prop where
  bound_iff : ∀ proto addr port i, i ≠ kAmbiguousLocalInode →
    (t.lookup (makeLocalKey proto addr port) = some i ↔
      (∃ d ∈ ds, makeLocalKey proto addr port ∈ d.localKeys) ∧
        ∀ d ∈ ds, makeLocalKey proto addr port ∈ d.localKeys → d.inode = i)
  ambiguous_iff : ∀ proto addr port,
    t.lookup (makeLocalKey proto addr port) = some kAmbiguousLocalInode ↔
      ∃ d ∈ ds, ∃ e ∈ ds, makeLocalKey proto addr port ∈ d.localKeys ∧
        makeLocalKey proto addr port ∈ e.localKeys ∧ d.inode ≠ e.inode
  /-- A positive answer by the fallback is for one socket only, which this process holds. -/
  fallback : ∀ inodeToPid pidStartTime flow, t.lookup flow.flowKey = none →
    0 < SockDiagResolver.resolvePid ⟨true, t, inodeToPid⟩ pidStartTime flow →
    ∃ i stamp, (∃ d ∈ ds, flow.Under d) ∧ (∀ d ∈ ds, flow.Under d → d.inode = i) ∧
      inodeToPid.lookup i = some stamp ∧
      SockDiagResolver.resolvePid ⟨true, t, inodeToPid⟩ pidStartTime flow = stamp.pid
  alike : ∀ ready inodeToPid pidStartTime flow,
    SockDiagResolver.resolvePid ⟨ready, t, inodeToPid⟩ pidStartTime flow =
      NetnsScanner.resolvePid ⟨ready, t, inodeToPid⟩ pidStartTime flow

section Sound
variable {ds : List Diag} {t : SocketTable}
  (ht : ∀ proto addr port, t.lookup (makeLocalKey proto addr port) =
    agreed kAmbiguousLocalInode (inodesUnder (makeLocalKey proto addr port) ds))
include ht

theorem lookup_localKey_iff (proto : UInt8) (addr : HostAddress) (port : UInt16) {i : UInt64}
    (hi : i ≠ kAmbiguousLocalInode) :
    t.lookup (makeLocalKey proto addr port) = some i ↔
      (∃ d ∈ ds, makeLocalKey proto addr port ∈ d.localKeys) ∧
        ∀ d ∈ ds, makeLocalKey proto addr port ∈ d.localKeys → d.inode = i := by
  rw [ht, agreed_eq_some_iff hi]
  simp only [mem_inodesUnder]
  constructor
  · rintro ⟨⟨d, hd, hkey, -⟩, hall⟩
    exact ⟨⟨d, hd, hkey⟩, fun e he hkey' => hall e.inode ⟨e, he, hkey', rfl⟩⟩
  · rintro ⟨⟨d, hd, hkey⟩, hall⟩
    refine ⟨⟨d, hd, hkey, hall d hd hkey⟩, ?_⟩
    rintro _ ⟨e, he, hkey', rfl⟩
    exact hall e he hkey'

theorem lookup_localKey_mark_iff (proto : UInt8) (addr : HostAddress) (port : UInt16) :
    t.lookup (makeLocalKey proto addr port) = some kAmbiguousLocalInode ↔
      ∃ d ∈ ds, ∃ e ∈ ds, makeLocalKey proto addr port ∈ d.localKeys ∧
        makeLocalKey proto addr port ∈ e.localKeys ∧ d.inode ≠ e.inode := by
  rw [ht, agreed_eq_mark_iff]
  simp only [mem_inodesUnder]
  constructor
  · rintro (⟨d, -, hkey, hzero⟩ | ⟨_, ⟨d, hd, hkey, rfl⟩, _, ⟨e, he, hkey', rfl⟩, hne⟩)
    · exact absurd hzero (Diag.inode_ne_zero hkey)
    · exact ⟨d, hd, e, he, hkey, hkey', hne⟩
  · rintro ⟨d, hd, e, he, hkey, hkey', hne⟩
    exact .inr ⟨_, ⟨d, hd, hkey, rfl⟩, _, ⟨e, he, hkey', rfl⟩, hne⟩

theorem lookup_localKey_none (proto : UInt8) (addr : HostAddress) (port : UInt16)
    (h : t.lookup (makeLocalKey proto addr port) = none) :
    ∀ d ∈ ds, makeLocalKey proto addr port ∉ d.localKeys := by
  rw [ht, agreed_eq_none_iff, List.eq_nil_iff_forall_not_mem] at h
  exact fun d hd hkey => h d.inode (mem_inodesUnder.mpr ⟨d, hd, hkey, rfl⟩)

/-- The socket a fallback finds is the only one under the local end and the wildcard. -/
theorem fallback_single {flow : SockFlow} {i : UInt64} (hi : i ≠ kAmbiguousLocalInode)
    (h : NetnsScanner.fallback (t.lookup flow.localKey) (t.lookup flow.wildcardKey) = some i) :
    (∃ d ∈ ds, flow.Under d) ∧ ∀ d ∈ ds, flow.Under d → d.inode = i := by
  have hbound := fun addr => lookup_localKey_iff ht flow.number addr flow.localPort hi
  have hnone := fun addr => lookup_localKey_none ht flow.number addr flow.localPort
  rcases (NetnsScanner.fallback_eq_some_iff hi).mp h with ⟨hlocal, hwildcard⟩ | ⟨hlocal, hwildcard⟩
  · obtain ⟨⟨d, hd, hkey⟩, hall⟩ := (hbound _).mp hlocal
    refine ⟨⟨d, hd, .inl hkey⟩, fun e he hunder => ?_⟩
    rcases hunder with hkey' | hkey'
    · exact hall e he hkey'
    · rcases hwildcard with hwildcard | hwildcard
      · exact absurd hkey' (hnone _ hwildcard e he)
      · exact ((hbound _).mp hwildcard).2 e he hkey'
  · obtain ⟨⟨d, hd, hkey⟩, hall⟩ := (hbound _).mp hwildcard
    refine ⟨⟨d, hd, .inr hkey⟩, fun e he hunder => ?_⟩
    rcases hunder with hkey' | hkey'
    · exact absurd hkey' (hnone _ hlocal e he)
    · exact hall e he hkey'

theorem localKeysSound_of_agreed : LocalKeysSound (↑ds) t where
  bound_iff proto addr port i hi := by
    simp only [Multiset.mem_coe]
    exact lookup_localKey_iff ht proto addr port hi
  ambiguous_iff proto addr port := by
    simp only [Multiset.mem_coe]
    exact lookup_localKey_mark_iff ht proto addr port
  fallback inodeToPid pidStartTime flow hexact hpos := by
    simp only [Multiset.mem_coe]
    have hzero : ¬ (0 : Int32) < 0 := by decide
    rw [resolvePid_alike, NetnsScanner.resolvePid_eq, NetnsScanner.findSocket_of_none hexact] at hpos ⊢
    split at hpos
    · next hlooked =>
        rw [if_pos hlooked]
        split at hpos
        · next hudp =>
            rw [if_pos hudp]
            cases hfound : NetnsScanner.fallback (t.lookup flow.localKey) (t.lookup flow.wildcardKey) with
            | none =>
                rw [hfound] at hpos
                exact absurd hpos hzero
            | some i =>
                rw [hfound] at hpos
                obtain ⟨hi, stamp, hstamp, hpid⟩ := heldBy_pos hpos
                obtain ⟨hsome, hall⟩ := fallback_single ht hi hfound
                exact ⟨i, stamp, hsome, hall, hstamp, hpid⟩
        · exact absurd hpos hzero
    · exact absurd hpos hzero
  alike ready inodeToPid pidStartTime flow := resolvePid_alike ready t inodeToPid pidStartTime flow

end Sound

/-- **Local keys are sound, in any order and any chunks.**  For every collection of sockets whose keys
fit into the table, however they are delivered. -/
theorem localKeys_sound (host : ByteOrder) (chunks : List Chunk) (ds : Multiset Diag)
    (hds : (↑(chunks.flatMap (Chunk.diags host)) : Multiset Diag) = ds)
    (hcap : (ds.toFinset.biUnion Diag.keys).card ≤ kMaxSocketEntries) :
    ∃ t, parseChunks host chunks {} = .ok t ∧ LocalKeysSound ds t := by
  subst hds
  refine ⟨_, parseChunks_eq host chunks {}, localKeysSound_of_agreed fun proto addr port =>
    lookup_indexAll hcap (fun d hd => ?_) proto addr port⟩
  refine Finset.subset_biUnion_of_mem Diag.keys ?_
  rwa [Multiset.mem_toFinset, Multiset.mem_coe]

/-- A socket that waits for datagrams on port 53 of every address. -/
def nameServer : Diag where
  proto := IPPROTO_UDP
  msg := { family := AF_INET6, sport := 53, dport := 0, src := List.replicate 16 0,
           dst := List.replicate 16 0, inode := 77 }

/-- The message that reports it, on a host with the low byte first. -/
def nameServerChunk : Chunk where
  buf :=
    { buffer := [88, 0, 0, 0, 20, 0] ++ List.replicate 10 0 ++ [10, 0, 0, 0, 0, 53] ++
        List.replicate 62 0 ++ [77, 0, 0, 0]
      size := 88
      le := by decide }
  proto := IPPROTO_UDP
  small := by decide

theorem diags_nameServerChunk : nameServerChunk.diags .little = [nameServer] := by
  have hmessages : messages .little nameServerChunk.buf = [⟨0, 88, SOCK_DIAG_BY_FAMILY⟩] := by
    rw [messages, messagesFrom, dif_pos (by decide), messagesFrom, dif_neg (by decide)]
    decide
  rw [Chunk.diags, sockets, hmessages]
  decide

theorem nameServer_sound :
    ∃ t, parseChunks .little [nameServerChunk] {} = .ok t ∧ LocalKeysSound ({nameServer}) t :=
  localKeys_sound .little [nameServerChunk] {nameServer}
    (by rw [List.flatMap_singleton, diags_nameServerChunk]; rfl) (by decide)

end Qiftop.Backend
